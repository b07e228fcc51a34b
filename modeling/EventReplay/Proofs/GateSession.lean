import Mathlib.Data.List.Perm.Basic
import EventReplay.Proofs.GateCalls
import EventReplay.Proofs.OneOfMany
import EventReplay.Replay.GateTasks

/-!
# A gate on many threads

One gate, any number of tasks that call for permits or drain it, the completions that permits go back
on, and the threads that tell those completions, all of them stopping and going on between any two of
their steps. A step reads or changes one thing at most: the line and the units of the gate, its count of
permits, its peak, or one completion. So a permit that is granted has its unit before it is counted, and
one that comes back is not counted any more before its unit is back.

Whatever happens next, it is one of the deeds of `GateDeed` (`GateSession.does_act`).
-/

set_option autoImplicit false

namespace EventReplay

variable {η : Type}

/-- The units that a wish needs of a gate. -/
def GateWish.needs (capacity : Nat) : GateWish η → Nat
  | .drain => capacity
  | .reserve | .acquire _ => 1

/-- The completion that a permit is to go back on. -/
def GateWish.onto : GateWish η → Option η
  | .acquire handle => some handle
  | .reserve | .drain => none

/-! ## Threads -/

/-- What a thread is about to do. -/
inductive GateWork (η : Type) where
  /-- To look whether a call can be answered. -/
  | call (ticket : Nat) (wish : GateWish η)
  /-- To count a permit that has its unit. -/
  | countUp (ticket : Nat) (onto : Option η)
  /-- To keep the peak at the level that the permit has brought, and to hand the permit on. -/
  | raisePeak (ticket level : Nat) (onto : Option η)
  /-- To let a permit go back when a completion is told. -/
  | register (ticket : Nat) (handle : η)
  /-- To count a permit no longer. -/
  | countDown (ticket : Nat)
  /-- To put the unit of a permit back. -/
  | putBack (ticket : Nat)
  /-- To put the units of a drain back. -/
  | refill (ticket : Nat)
  /-- To end a round of a completion. -/
  | endRound (handle : η)
deriving DecidableEq, Repr

/-- What becomes of a call, and of what it was granted. -/
inductive GateFate where
  /-- It has a permit. -/
  | granted
  /-- It has all units: no permit is out. -/
  | drained
  /-- It is told that the gate is closed. -/
  | refused
  /-- It is given up. -/
  | cancelled
  /-- Its permit is back. -/
  | returned
  /-- Its units are all back. -/
  | refilled
deriving DecidableEq, Repr

/-- What can be seen of a step. -/
inductive GateMark (η : Type) where
  /-- A call asks for units. -/
  | asked (ticket : Nat) (wish : GateWish η)
  | became (ticket : Nat) (fate : GateFate)
  | closed
deriving DecidableEq, Repr

/-- What the threads at a gate share. -/
structure GateTable (η : Type) where
  gate : Gate
  /-- The permits in the hands of tasks. -/
  permits : List Nat := []
  /-- The completions, with the permits that go back on them. -/
  completions : List (η × Completion Nat) := []
  /-- The ticket of the next call. -/
  nextTicket : Nat := 0

variable [DecidableEq η]

/-- An entry that is set stands for its key; the others stay. -/
theorem lookup_set {α : Type} (entries : List (η × α)) (key : η) (value : α) (key' : η) :
    ((key, value) :: entries.filter fun entry => entry.1 ≠ key).lookup key' =
      if key' = key then some value else entries.lookup key' := by
  by_cases h : key' = key
  · rw [if_pos h, h, List.lookup_cons_self]
  · rw [if_neg h, List.lookup_cons, beq_false_of_ne h]
    dsimp only
    induction entries with
    | nil => rfl
    | cons entry entries ih =>
        by_cases hkey : entry.1 = key
        · rw [List.filter_cons_of_neg (by simpa using hkey), ih, List.lookup_cons,
            beq_false_of_ne fun heq => h (heq.trans hkey)]
        · rw [List.filter_cons_of_pos (by simpa using hkey), List.lookup_cons, List.lookup_cons, ih]

namespace GateTable

/-- The completion of a handle; one that has not been met is fresh. -/
def completion (t : GateTable η) (handle : η) : Completion Nat :=
  (t.completions.lookup handle).getD .fresh

/-- Sets the completion of a handle. -/
def setCompletion (t : GateTable η) (handle : η) (c : Completion Nat) : GateTable η :=
  { t with completions := (handle, c) :: t.completions.filter fun entry => entry.1 ≠ handle }

theorem completion_setCompletion (t : GateTable η) (handle : η) (c : Completion Nat) (handle' : η) :
    (t.setCompletion handle c).completion handle' =
      if handle' = handle then c else t.completion handle' := by
  rw [completion, setCompletion, lookup_set]
  split <;> rfl

end GateTable

/-- A thread does the first thing that it is about to do; gives what it is about to do instead. -/
def GateWork.perform (t : GateTable η) :
    GateWork η → GateTable η × List (GateWork η) × List (GateMark η)
  | .call ticket wish =>
    if t.gate.closed then
      ({ t with gate := t.gate.withdraw ticket }, [], [.became ticket .refused])
    else if t.gate.isReady ticket then
      let table := { t with gate := t.gate.take ticket }
      match wish with
      | .drain => (table, [.refill ticket], [.became ticket .drained])
      | wish => (table, [.countUp ticket wish.onto], [.became ticket .granted])
    else (t, [.call ticket wish], [])
  | .countUp ticket onto =>
    ({ t with gate := t.gate.countUp }, [.raisePeak ticket (t.gate.outstanding + 1) onto], [])
  | .raisePeak ticket level onto =>
    let table := { t with gate := t.gate.raisePeak level }
    match onto with
    | none => ({ table with permits := t.permits ++ [ticket] }, [], [])
    | some handle => (table, [.register ticket handle], [])
  | .register ticket handle =>
    match (t.completion handle).register ticket with
    | (c, none) => (t.setCompletion handle c, [], [])
    | (c, some _) => (t.setCompletion handle c, [.countDown ticket], [])
  | .countDown ticket => ({ t with gate := t.gate.countDown }, [.putBack ticket], [])
  | .putBack ticket => ({ t with gate := t.gate.putBack 1 }, [], [.became ticket .returned])
  | .refill ticket =>
    ({ t with gate := t.gate.putBack t.gate.capacity }, [], [.became ticket .refilled])
  | .endRound handle =>
    match (t.completion handle).nextRound with
    | ([], c) => (t.setCompletion handle c, [], [])
    | (round, c) => (t.setCompletion handle c, round.map .countDown ++ [.endRound handle], [])

/-- A gate and the threads around it. -/
structure GateSession (η : Type) where
  table : GateTable η
  threads : List (List (GateWork η)) := []
  marks : List (GateMark η) := []

/-- What happens next. -/
inductive GateAction (η : Type) where
  /-- A task calls. -/
  | start (wish : GateWish η)
  /-- A call that has not been answered is given up. -/
  | cancel (thread : Nat)
  /-- A task drops a permit. -/
  | drop (ticket : Nat)
  /-- A task lets a permit go back when a completion is told. -/
  | releaseOn (ticket : Nat) (handle : η)
  /-- A completion is told. -/
  | tell (handle : η) (outcome : Outcome)
  | close
  /-- A thread takes a step. -/
  | step (thread : Nat)
deriving DecidableEq, Repr

namespace GateSession

/-- A task parts with a permit; a thread is about to do something with it. -/
def part (s : GateSession η) (ticket : Nat) (work : GateWork η) : GateSession η :=
  if ticket ∈ s.table.permits then
    { s with
      table := { s.table with permits := s.table.permits.erase ticket }
      threads := s.threads ++ [[work]] }
  else s

/-- What happens next happens. -/
def act (s : GateSession η) : GateAction η → GateSession η
  | .start wish =>
    let ticket := s.table.nextTicket
    { table := { s.table with
        gate := s.table.gate.ask ticket (wish.needs s.table.gate.capacity)
        nextTicket := ticket + 1 }
      threads := s.threads ++ [[.call ticket wish]]
      marks := s.marks ++ [.asked ticket wish] }
  | .cancel n =>
    match s.threads[n]? with
    | some (.call ticket _ :: rest) =>
      { table := { s.table with gate := s.table.gate.withdraw ticket }
        threads := s.threads.set n rest
        marks := s.marks ++ [.became ticket .cancelled] }
    | _ => s
  | .drop ticket => s.part ticket (.countDown ticket)
  | .releaseOn ticket handle => s.part ticket (.register ticket handle)
  | .tell handle outcome =>
    match (s.table.completion handle).tell outcome with
    | none => s
    | some (round, c) =>
      { s with
        table := s.table.setCompletion handle c
        threads := s.threads ++ [round.map .countDown ++ [.endRound handle]] }
  | .close =>
    { s with
      table := { s.table with gate := s.table.gate.close }
      marks := s.marks ++ [.closed] }
  | .step n =>
    match s.threads[n]? with
    | some (work :: rest) =>
      let (table, more, marks) := work.perform s.table
      { table, threads := s.threads.set n (more ++ rest), marks := s.marks ++ marks }
    | _ => s

/-- A gate of so many units that nobody has called at. -/
def fresh (capacity : Nat) : GateSession η := { table := { gate := .ofCapacity capacity } }

/-- A gate after everything in a schedule has happened. -/
def run (capacity : Nat) (schedule : List (GateAction η)) : GateSession η :=
  schedule.foldl act (fresh capacity)

/-- What all threads are about to do. -/
def work (s : GateSession η) : List (GateWork η) := s.threads.flatten

end GateSession

/-! ## What can happen -/

/-- What can happen at a gate: what a thread was about to do, and what it is about to do instead. -/
inductive GateDeed (t : GateTable η) : List (GateWork η) → GateTable η → List (GateWork η) →
    List (GateMark η) → Prop
  | idle : GateDeed t [] t [] []
  | ask (wish : GateWish η) :
      GateDeed t [] { t with
        gate := t.gate.ask t.nextTicket (wish.needs t.gate.capacity)
        nextTicket := t.nextTicket + 1 } [.call t.nextTicket wish] [.asked t.nextTicket wish]
  | cancel (ticket : Nat) (wish : GateWish η) :
      GateDeed t [.call ticket wish] { t with gate := t.gate.withdraw ticket } []
        [.became ticket .cancelled]
  | refuse (ticket : Nat) (wish : GateWish η) (hclosed : t.gate.closed = true) :
      GateDeed t [.call ticket wish] { t with gate := t.gate.withdraw ticket } []
        [.became ticket .refused]
  | grant (ticket : Nat) (wish : GateWish η) (hwish : wish ≠ .drain) (hopen : t.gate.closed = false)
      (hready : t.gate.isReady ticket = true) :
      GateDeed t [.call ticket wish] { t with gate := t.gate.take ticket }
        [.countUp ticket wish.onto] [.became ticket .granted]
  | drain (ticket : Nat) (hopen : t.gate.closed = false) (hready : t.gate.isReady ticket = true) :
      GateDeed t [.call ticket .drain] { t with gate := t.gate.take ticket } [.refill ticket]
        [.became ticket .drained]
  | countUp (ticket : Nat) (onto : Option η) :
      GateDeed t [.countUp ticket onto] { t with gate := t.gate.countUp }
        [.raisePeak ticket (t.gate.outstanding + 1) onto] []
  | handOut (ticket level : Nat) :
      GateDeed t [.raisePeak ticket level none]
        { t with gate := t.gate.raisePeak level, permits := t.permits ++ [ticket] } [] []
  | handOn (ticket level : Nat) (handle : η) :
      GateDeed t [.raisePeak ticket level (some handle)]
        { t with gate := t.gate.raisePeak level } [.register ticket handle] []
  | keep (ticket : Nat) (handle : η) (c : Completion Nat)
      (hc : (t.completion handle).register ticket = (c, none)) :
      GateDeed t [.register ticket handle] (t.setCompletion handle c) [] []
  | atOnce (ticket : Nat) (handle : η) (c : Completion Nat) (outcome : Outcome)
      (hc : (t.completion handle).register ticket = (c, some outcome)) :
      GateDeed t [.register ticket handle] (t.setCompletion handle c) [.countDown ticket] []
  | part (ticket : Nat) (work : GateWork η) (hmem : ticket ∈ t.permits)
      (hwork : work = .countDown ticket ∨ ∃ handle, work = .register ticket handle) :
      GateDeed t [] { t with permits := t.permits.erase ticket } [work] []
  | tell (handle : η) (outcome : Outcome) (round : List Nat) (c : Completion Nat)
      (hc : (t.completion handle).tell outcome = some (round, c)) :
      GateDeed t [] (t.setCompletion handle c) (round.map .countDown ++ [.endRound handle]) []
  | nextRound (handle : η) (round : List Nat) (c : Completion Nat) (hround : round ≠ [])
      (hc : (t.completion handle).nextRound = (round, c)) :
      GateDeed t [.endRound handle] (t.setCompletion handle c)
        (round.map .countDown ++ [.endRound handle]) []
  | lastRound (handle : η) (c : Completion Nat) (hc : (t.completion handle).nextRound = ([], c)) :
      GateDeed t [.endRound handle] (t.setCompletion handle c) [] []
  | countDown (ticket : Nat) :
      GateDeed t [.countDown ticket] { t with gate := t.gate.countDown } [.putBack ticket] []
  | putBack (ticket : Nat) :
      GateDeed t [.putBack ticket] { t with gate := t.gate.putBack 1 } [] [.became ticket .returned]
  | refill (ticket : Nat) :
      GateDeed t [.refill ticket] { t with gate := t.gate.putBack t.gate.capacity } []
        [.became ticket .refilled]
  | close : GateDeed t [] { t with gate := t.gate.close } [] [.closed]

/-- What a thread does is one of the deeds; a call that cannot be answered waits. -/
theorem GateWork.perform_deed (t : GateTable η) (work : GateWork η) :
    (∃ ticket wish, work = .call ticket wish ∧ work.perform t = (t, [work], [])) ∨
    GateDeed t [work] (work.perform t).1 (work.perform t).2.1 (work.perform t).2.2 := by
  cases work with
  | call ticket wish =>
      cases hclosed : t.gate.closed with
      | true =>
          simp only [perform, hclosed, if_true]
          exact .inr (.refuse ticket wish hclosed)
      | false =>
          cases hready : t.gate.isReady ticket with
          | false => exact .inl ⟨ticket, wish, rfl, by simp [perform, hclosed, hready]⟩
          | true =>
              refine .inr ?_
              simp only [perform, hclosed, hready, if_true, Bool.false_eq_true, if_false]
              cases wish with
              | drain => exact .drain ticket hclosed hready
              | reserve => exact .grant ticket .reserve (by simp) hclosed hready
              | acquire handle => exact .grant ticket (.acquire handle) (by simp) hclosed hready
  | countUp ticket onto => exact .inr (.countUp ticket onto)
  | raisePeak ticket level onto =>
      cases onto with
      | none => exact .inr (.handOut ticket level)
      | some handle => exact .inr (.handOn ticket level handle)
  | register ticket handle =>
      refine .inr ?_
      simp only [perform]
      split
      · rename_i c hc
        exact .keep ticket handle c hc
      · rename_i c outcome hc
        exact .atOnce ticket handle c outcome hc
  | countDown ticket => exact .inr (.countDown ticket)
  | putBack ticket => exact .inr (.putBack ticket)
  | refill ticket => exact .inr (.refill ticket)
  | endRound handle =>
      refine .inr ?_
      simp only [perform]
      split
      · rename_i c hc
        exact .lastRound handle c hc
      · rename_i round c hround hc
        exact .nextRound handle round c hround hc

namespace GateSession

/-- Between two states there is one deed among what the threads are about to do; a new thread stands
behind the others. -/
def Does (s s' : GateSession η) : Prop :=
  ∃ before old new after marks, GateDeed s.table old s'.table new marks ∧ (old = [] → after = []) ∧
    s.work = before ++ old ++ after ∧ s'.work = before ++ new ++ after ∧ s'.marks = s.marks ++ marks

variable {s : GateSession η}

theorem Does.refl (s : GateSession η) : s.Does s :=
  ⟨s.work, [], [], [], [], .idle, fun _ => rfl, by simp, by simp, by simp⟩

/-- A new thread has something to do. -/
theorem Does.of_thread {table : GateTable η} {more : List (GateWork η)} {marks : List (GateMark η)}
    (h : GateDeed s.table [] table more marks) :
    s.Does ⟨table, s.threads ++ [more], s.marks ++ marks⟩ :=
  ⟨s.work, [], more, [], marks, h, fun _ => rfl, by simp, by simp [work], rfl⟩

/-- A thread has something else to do. -/
theorem Does.of_set {table : GateTable η} {n : Nat} {first : GateWork η}
    {rest more : List (GateWork η)} {marks : List (GateMark η)}
    (hthread : s.threads[n]? = some (first :: rest)) (h : GateDeed s.table [first] table more marks) :
    s.Does ⟨table, s.threads.set n (more ++ rest), s.marks ++ marks⟩ := by
  obtain ⟨before, after, hold, hset⟩ := flatten_set hthread
  exact ⟨before, [first], more, after, marks, h, by simp, hold, hset more, rfl⟩

theorem Does.part (s : GateSession η) (ticket : Nat) {work : GateWork η}
    (hwork : work = .countDown ticket ∨ ∃ handle, work = .register ticket handle) :
    s.Does (s.part ticket work) := by
  unfold GateSession.part
  split
  · rename_i hmem
    have hdoes := Does.of_thread (s := s) (.part ticket work hmem hwork)
    rwa [List.append_nil] at hdoes
  · exact .refl s

theorem Does.step (s : GateSession η) (n : Nat) : s.Does (s.act (.step n)) := by
  simp only [act]
  split
  · rename_i first rest hthread
    rcases first.perform_deed s.table with ⟨ticket, wish, rfl, hwaits⟩ | hdeed
    · have hset : s.threads.set n (.call ticket wish :: rest) = s.threads := by
        obtain ⟨hlt, hget⟩ := List.getElem?_eq_some_iff.mp hthread
        rw [← hget, List.set_getElem_self]
      simp only [hwaits, List.singleton_append, hset, List.append_nil]
      exact .refl s
    · exact .of_set hthread hdeed
  · exact .refl s

/-- Whatever happens next is a deed. -/
theorem does_act (s : GateSession η) (action : GateAction η) : s.Does (s.act action) := by
  cases action with
  | start wish => exact .of_thread (.ask wish)
  | cancel n =>
      simp only [act]
      split
      · rename_i ticket wish rest hthread
        exact .of_set hthread (.cancel ticket wish)
      · exact .refl s
  | drop ticket => exact .part s ticket (.inl rfl)
  | releaseOn ticket handle => exact .part s ticket (.inr ⟨handle, rfl⟩)
  | tell handle outcome =>
      simp only [act]
      split
      · exact .refl s
      · rename_i round c hc
        have hdoes := Does.of_thread (s := s) (.tell handle outcome round c hc)
        rwa [List.append_nil] at hdoes
  | close => exact ⟨s.work, [], [], [], _, .close, fun _ => rfl, by simp, by simp [act, work], rfl⟩
  | step n => exact .step s n

theorem run_concat (capacity : Nat) (schedule : List (GateAction η)) (action : GateAction η) :
    run capacity (schedule ++ [action]) = (run capacity schedule).act action := by
  rw [run, List.foldl_concat, run]

end GateSession

end EventReplay
