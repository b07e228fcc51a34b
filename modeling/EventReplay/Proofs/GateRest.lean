import Mathlib.Algebra.Ring.Nat
import EventReplay.Proofs.GateConservation

/-!
# Threads at a gate come to rest

Each step of a thread that does not wait for a call is paid for (`GateDeed.cost_lt`), so that threads that
go on come to rest: all that they are about to do then is to look at calls again. By then, completions
that were told keep no permits (`GateSession.Settled`), and every permit that was going back is back
(`GateSession.GoesBack`).
-/

set_option autoImplicit false

namespace EventReplay

variable {η : Type} [DecidableEq η] {s s' : GateSession η} {t t' : GateTable η}
  {old new : List (GateWork η)} {marks : List (GateMark η)}

open GateMark GateWork

/-! ## Rest -/

/-- Whether a thread waits for a call. -/
def GateWork.isCall : GateWork η → Bool
  | call .. => true
  | _ => false

/-- A bound on the steps that come of what a thread is about to do. -/
def GateWork.cost : GateWork η → Nat
  | call .. => 7
  | countUp .. => 6
  | raisePeak .. => 5
  | register .. => 4
  | countDown _ => 2
  | putBack _ | refill _ | endRound _ => 1

/-- A bound on the steps that come of what threads are about to do, and of the permits that completions
keep: each is to be counted no longer and to be put back, and the round that takes it up is a step too. -/
def GateTable.cost (t : GateTable η) (work : List (GateWork η)) : Nat :=
  3 * t.kept.length + (work.map GateWork.cost).sum

/-- A step is paid for. -/
theorem GateDeed.cost_lt (h : GateDeed t old t' new marks) (hkeyed : t.Keyed) (hold : old ≠ []) :
    t'.cost new < t.cost old := by
  have hround (round : List Nat) :
      ((round.map (.countDown : Nat → GateWork η)).map GateWork.cost).sum = 2 * round.length := by
    induction round with
    | nil => rfl
    | cons ticket round ih =>
        simp only [List.map_cons, List.sum_cons, ih, GateWork.cost, List.length_cons]
        omega
  cases h with
  | keep ticket handle c hc =>
      have hlength := (hkeyed.kept_setCompletion handle c).length_eq
      rw [Completion.kept_of_register_none hc] at hlength
      simp [GateTable.cost, GateWork.cost] at hlength ⊢
      omega
  | atOnce ticket handle c outcome hc =>
      have hlength := (hkeyed.kept_setCompletion handle c).length_eq
      rw [Completion.kept_of_register_some hc] at hlength
      simp [GateTable.cost, GateWork.cost] at hlength ⊢
      omega
  | nextRound handle round c hne hc =>
      have hlength := (hkeyed.kept_setCompletion handle c).length_eq
      rw [Completion.kept_of_nextRound hc] at hlength
      have hpos := List.length_pos_iff.mpr hne
      simp only [GateTable.cost, List.map_append, List.sum_append, hround, List.length_append]
        at hlength ⊢
      simp [GateWork.cost]
      omega
  | lastRound handle c hc =>
      have hlength := (hkeyed.kept_setCompletion handle c).length_eq
      rw [Completion.kept_of_nextRound hc] at hlength
      simp [GateTable.cost, GateWork.cost] at hlength ⊢
      omega
  | idle | ask | part | tell | close => exact absurd rfl hold
  | _ => simp [GateTable.cost, GateWork.cost, GateTable.kept]

/-- Only who waits for a call waits for it after a step. -/
theorem GateWork.call_of_perform {work : GateWork η} {ticket : Nat} {wish : GateWish η}
    (h : .call ticket wish ∈ (work.perform t).2.1) :
    work = .call ticket wish ∧ (work.perform t).2.1 = [.call ticket wish] := by
  rcases work.perform_deed t with ⟨ticket', wish', rfl, hwaits⟩ | hdeed
  · rw [hwaits] at h ⊢
    obtain ⟨rfl, rfl⟩ : ticket = ticket' ∧ wish = wish' := by simpa using h
    exact ⟨rfl, rfl⟩
  · generalize (work.perform t).1 = t', (work.perform t).2.1 = new, (work.perform t).2.2 = marks
      at hdeed h
    cases hdeed <;> simp at h

namespace GateSession

/-- Whether all threads that have something to do wait for a call. -/
def atRest (s : GateSession η) : Bool := s.work.all GateWork.isCall

/-- A thread that waits for a call does nothing else. -/
def Alone (thread : List (GateWork η)) : Prop :=
  ∀ ticket wish, .call ticket wish ∈ thread → thread = [.call ticket wish]

/-- Threads that wait for calls do nothing else. -/
def Apart (s : GateSession η) : Prop := ∀ thread ∈ s.threads, Alone thread

omit [DecidableEq η] in
/-- A thread goes on with something else. -/
theorem Apart.set (h : s.Apart) {table : GateTable η} {marks : List (GateMark η)} (n : Nat)
    {thread : List (GateWork η)} (halone : Alone thread) :
    Apart ⟨table, s.threads.set n thread, marks⟩ := by
  intro thread' hthread
  rcases List.mem_or_eq_of_mem_set hthread with hthread | rfl
  · exact h thread' hthread
  · exact halone

omit [DecidableEq η] in
/-- A new thread stands behind the others. -/
theorem Apart.concat (h : s.Apart) {table : GateTable η} {marks : List (GateMark η)}
    {thread : List (GateWork η)} (halone : Alone thread) :
    Apart ⟨table, s.threads ++ [thread], marks⟩ := by
  intro thread' hthread
  rcases List.mem_append.mp hthread with hthread | hthread
  · exact h thread' hthread
  · obtain rfl := List.mem_singleton.mp hthread
    exact halone

omit [DecidableEq η] in
theorem Apart.part (h : s.Apart) (ticket : Nat) {work : GateWork η} (hwork : work.isCall = false) :
    (s.part ticket work).Apart := by
  unfold GateSession.part
  split
  · refine h.concat fun ticket' wish hmem => ?_
    rw [← List.mem_singleton.mp hmem] at hwork
    exact absurd hwork (by simp [isCall])
  · exact h

theorem Apart.step (h : s.Apart) (n : Nat) : (s.act (.step n)).Apart := by
  simp only [act]
  split
  · rename_i first rest hthread
    refine h.set n fun ticket wish hmem => ?_
    have halone := h _ (List.mem_of_getElem? hthread) ticket wish
    rcases List.mem_append.mp hmem with hmem | hmem
    -- who still waits has waited alone
    · obtain ⟨rfl, hwaits⟩ := GateWork.call_of_perform hmem
      obtain ⟨-, rfl⟩ := List.cons.inj (halone (List.mem_cons_self ..))
      rw [hwaits]
      rfl
    · obtain ⟨-, rfl⟩ := List.cons.inj (halone (List.mem_cons_of_mem _ hmem))
      exact absurd hmem List.not_mem_nil
  · exact h

theorem Apart.act (h : s.Apart) (action : GateAction η) : (s.act action).Apart := by
  cases action with
  | start wish =>
      refine h.concat fun ticket wish' hmem => ?_
      rw [List.mem_singleton.mp hmem]
  | cancel n =>
      simp only [GateSession.act]
      split
      · rename_i ticket wish rest hthread
        have halone := h _ (List.mem_of_getElem? hthread) ticket wish (List.mem_cons_self ..)
        obtain ⟨-, rfl⟩ := List.cons.inj halone
        exact h.set n fun _ _ hmem => absurd hmem List.not_mem_nil
      · exact h
  | drop ticket => exact h.part ticket rfl
  | releaseOn ticket handle => exact h.part ticket rfl
  | tell handle outcome =>
      simp only [GateSession.act]
      split
      · exact h
      · exact h.concat fun ticket wish hmem => by simp at hmem
  | close => exact h
  | step n => exact h.step n

theorem apart_run (capacity : Nat) (schedule : List (GateAction η)) : (run capacity schedule).Apart := by
  have hfresh : (run capacity ([] : List (GateAction η))).Apart := by
    simp [run, fresh, Apart]
  exact run_keeps (fun s action h => h.act action) hfresh schedule

/-- A thread that does not wait brings the others closer to rest. -/
theorem cost_step_lt (hkeyed : s.table.Keyed) {n : Nat} {first : GateWork η} {rest : List (GateWork η)}
    (hthread : s.threads[n]? = some (first :: rest)) (hfirst : first.isCall = false) :
    (s.act (.step n)).table.cost (s.act (.step n)).work < s.table.cost s.work := by
  obtain ⟨before, after, hwork, hset⟩ := flatten_set hthread
  have hdeed := (first.perform_deed s.table).resolve_left fun ⟨ticket, wish, heq, _⟩ => by
    simp [heq, isCall] at hfirst
  have hcost := hdeed.cost_lt hkeyed (by simp)
  have hwork' : (s.act (.step n)).work = before ++ (first.perform s.table).2.1 ++ after := by
    rw [← hset]
    simp only [act, hthread, work]
  have htable : (s.act (.step n)).table = (first.perform s.table).1 := by
    simp only [act, hthread]
  rw [hwork', htable, show s.work = before ++ [first] ++ after from hwork]
  simp only [GateTable.cost, List.map_append, List.sum_append] at hcost ⊢
  omega

/-- Threads that go on come to rest. -/
theorem exists_rest (capacity : Nat) (schedule : List (GateAction η)) :
    ∃ steps : List Nat, (run capacity (schedule ++ steps.map .step)).atRest = true := by
  -- the induction is on the steps that are left to pay for
  induction hcost : (run capacity schedule).table.cost (run capacity schedule).work using
    Nat.strongRecOn generalizing schedule with
  | ind cost ih =>
      by_cases hrest : (run capacity schedule).atRest = true
      · exact ⟨[], by simpa using hrest⟩
      · obtain ⟨work, hwork, hbusy⟩ : ∃ work ∈ (run capacity schedule).work, work.isCall = false := by
          simpa [atRest] using hrest
        obtain ⟨thread, hthread, hmem⟩ := List.mem_flatten.mp hwork
        obtain ⟨n, hn⟩ := List.getElem?_of_mem hthread
        cases thread with
        | nil => exact absurd hmem List.not_mem_nil
        | cons first rest =>
            have hfirst : first.isCall = false := by
              cases first with
              | call ticket wish =>
                  rw [apart_run capacity schedule _ hthread ticket wish (List.mem_cons_self ..)] at hmem
                  rw [List.mem_singleton.mp hmem] at hbusy
                  exact hbusy
              | _ => rfl
            have hless := cost_step_lt (booked_run capacity schedule).keyed hn hfirst
            rw [← run_concat, hcost] at hless
            obtain ⟨steps, hsteps⟩ := ih _ hless (schedule ++ [GateAction.step n]) rfl
            exact ⟨n :: steps, by simpa using hsteps⟩

omit [DecidableEq η] in
/-- At rest, threads hold nothing. -/
theorem flatMap_of_atRest {α : Type} (h : s.atRest = true) (f : GateWork η → List α)
    (hf : ∀ ticket wish, f (.call ticket wish) = []) : s.work.flatMap f = [] := by
  rw [List.flatMap_eq_nil_iff]
  intro work hwork
  have hcall := List.all_eq_true.mp h work hwork
  cases work with
  | call ticket wish => exact hf ticket wish
  | _ => simp [isCall] at hcall

end GateSession

/-! ## Completions that are told -/

/-- Whether rounds of callbacks are running. -/
def Completion.isDraining {κ : Type} : Completion κ → Bool
  | draining .. => true
  | pending _ | resolved _ => false

namespace Completion

variable {κ : Type} {c c' : Completion κ} {k : κ} {round : List κ} {outcome : Outcome}

/-- A callback that is registered changes nothing about the outcome. -/
theorem same_of_register {told : Option Outcome} (h : c.register k = (c', told)) :
    c'.isResolved = c.isResolved ∧ c'.isDraining = c.isDraining := by
  cases c <;> obtain ⟨rfl, -⟩ := Prod.mk.inj h <;> exact ⟨rfl, rfl⟩

theorem isResolved_of_tell (h : c.tell outcome = some (round, c')) : c'.isResolved = true := by
  cases c <;> simp only [tell, Option.some.injEq, Prod.mk.injEq, reduceCtorEq] at h
  exact h.2 ▸ rfl

theorem isResolved_of_nextRound (h : c.nextRound = (round, c')) :
    c'.isResolved = c.isResolved := by
  rcases c with _ | ⟨_, _ | _⟩ | _ <;> obtain ⟨-, rfl⟩ := Prod.mk.inj h <;> rfl

/-- After an empty round no further round runs. -/
theorem not_isDraining_of_nextRound (h : c.nextRound = ([], c')) : c'.isDraining = false := by
  rcases c with _ | ⟨_, _ | _⟩ | _ <;> obtain ⟨hround, rfl⟩ := Prod.mk.inj h <;>
    first | rfl | exact absurd hround (by simp)

/-- A completion that has been told and runs no rounds keeps no callbacks. -/
theorem kept_eq_nil (hresolved : c.isResolved = true) (hdraining : c.isDraining = false) :
    c.kept = [] := by
  cases c with
  | pending waiting => simp [isResolved] at hresolved
  | draining outcome late => simp [isDraining] at hdraining
  | resolved outcome => rfl

end Completion

/-- A completion that has been told stays so. -/
theorem GateDeed.isResolved (h : GateDeed t old t' new marks) {handle : η}
    (hresolved : (t.completion handle).isResolved = true) : (t'.completion handle).isResolved = true := by
  have hset {handle' : η} {c : Completion Nat}
      (hc : (t.completion handle').isResolved = true → c.isResolved = true) :
      ((t.setCompletion handle' c).completion handle).isResolved = true := by
    rw [GateTable.completion_setCompletion]
    split
    · rename_i heq
      exact hc (heq ▸ hresolved)
    · exact hresolved
  cases h with
  | keep ticket handle' c hc | atOnce ticket handle' c outcome hc =>
      exact hset fun htold => (Completion.same_of_register hc).1.trans htold
  | tell handle' outcome round c hc => exact hset fun _ => Completion.isResolved_of_tell hc
  | nextRound handle' round c hround hc => exact hset (Completion.isResolved_of_nextRound hc).trans
  | lastRound handle' c hc => exact hset (Completion.isResolved_of_nextRound hc).trans
  | _ => exact hresolved

/-- Who runs the rounds of a completion goes on to the last. -/
theorem GateDeed.isDraining (h : GateDeed t old t' new marks) {handle : η}
    (hdraining : (t'.completion handle).isDraining = true) :
    .endRound handle ∈ new ∨ (t.completion handle).isDraining = true ∧ .endRound handle ∉ old := by
  have hset {handle' : η} {c : Completion Nat}
      (hc : ((t.setCompletion handle' c).completion handle).isDraining = true) :
      handle = handle' ∧ c.isDraining = true ∨
        handle ≠ handle' ∧ (t.completion handle).isDraining = true := by
    rw [GateTable.completion_setCompletion] at hc
    split at hc
    · rename_i heq
      exact .inl ⟨heq, hc⟩
    · rename_i hne
      exact .inr ⟨hne, hc⟩
  cases h with
  | keep ticket handle' c hc | atOnce ticket handle' c outcome hc =>
      rcases hset hdraining with ⟨rfl, hrunning⟩ | ⟨-, hdraining⟩
      · exact .inr ⟨(Completion.same_of_register hc).2.symm.trans hrunning, by simp⟩
      · exact .inr ⟨hdraining, by simp⟩
  | tell handle' outcome round c hc | nextRound handle' round c hround hc =>
      rcases hset hdraining with ⟨rfl, -⟩ | ⟨hne, hdraining⟩
      · exact .inl (by simp)
      · exact .inr ⟨hdraining, by simp [hne]⟩
  | lastRound handle' c hc =>
      rcases hset hdraining with ⟨rfl, hrunning⟩ | ⟨hne, hdraining⟩
      · rw [Completion.not_isDraining_of_nextRound hc] at hrunning
        exact absurd hrunning (by simp)
      · exact .inr ⟨hdraining, by simp [hne]⟩
  | _ => exact .inr ⟨hdraining, by simp⟩

namespace GateSession

/-- Completions that are told have been told, and some thread runs the rounds of each that runs them. -/
structure Settled (s : GateSession η) (schedule : List (GateAction η)) : Prop where
  told : ∀ handle outcome, .tell handle outcome ∈ schedule →
    (s.table.completion handle).isResolved = true
  rounds : ∀ handle, (s.table.completion handle).isDraining = true → .endRound handle ∈ s.work

theorem isResolved_act (s : GateSession η) (handle : η) (outcome : Outcome) :
    ((s.act (.tell handle outcome)).table.completion handle).isResolved = true := by
  simp only [act]
  split
  · rename_i htell
    cases hc : s.table.completion handle with
    | pending waiting => simp [hc, Completion.tell] at htell
    | draining outcome' late => rfl
    | resolved outcome' => rfl
  · rename_i round c hc
    rw [GateTable.completion_setCompletion, if_pos rfl]
    exact Completion.isResolved_of_tell hc

theorem settled_run (capacity : Nat) (schedule : List (GateAction η)) :
    (run capacity schedule).Settled schedule := by
  induction schedule using List.reverseRecOn with
  | nil =>
      refine ⟨by simp, ?_⟩
      simp [run, fresh, GateTable.completion, Completion.fresh, Completion.isDraining]
  | append_singleton schedule action ih =>
      rw [run_concat]
      obtain ⟨before, old, new, after, marks, hdeed, -, hwork, hwork', -⟩ :=
        does_act (run capacity schedule) action
      refine ⟨fun handle outcome htell => ?_, fun handle hdraining => ?_⟩
      · rcases List.mem_append.mp htell with htell | htell
        · exact hdeed.isResolved (ih.told handle outcome htell)
        · obtain rfl := List.mem_singleton.mp htell
          exact isResolved_act ..
      · rcases hdeed.isDraining hdraining with hnew | ⟨hdraining, hold⟩
        · simp [hwork', hnew]
        · have hround := ih.rounds handle hdraining
          simp only [hwork, hwork', List.mem_append] at hround ⊢
          tauto

theorem Settled.kept_eq_nil {schedule : List (GateAction η)} (h : s.Settled schedule)
    (hrest : s.atRest = true) {handle : η} {outcome : Outcome} (htold : .tell handle outcome ∈ schedule) :
    (s.table.completion handle).kept = [] := by
  refine Completion.kept_eq_nil (h.told handle outcome htold) ?_
  by_contra hdraining
  have hround := h.rounds handle (by simpa using hdraining)
  exact absurd (List.all_eq_true.mp hrest _ hround) (by simp [isCall])

end GateSession

/-! ## Permits that go back -/

/-- A permit is going back, or is back. -/
def GateSession.GoesBack (s : GateSession η) (ticket : Nat) : Prop :=
  .countDown ticket ∈ s.work ∨ .putBack ticket ∈ s.work ∨ .became ticket .returned ∈ s.marks

theorem GateDeed.goesBack (h : GateDeed t old t' new marks) (ticket : Nat)
    (hgoes : .countDown ticket ∈ old ∨ .putBack ticket ∈ old) :
    .countDown ticket ∈ new ∨ .putBack ticket ∈ new ∨ .became ticket .returned ∈ marks := by
  cases h <;> simp at hgoes ⊢ <;> exact hgoes

/-- A permit that is going back is going back until it is back. -/
theorem GateSession.GoesBack.does {ticket : Nat} (h : s.GoesBack ticket) (hdoes : s.Does s') :
    s'.GoesBack ticket := by
  obtain ⟨before, old, new, after, marks, hdeed, -, hwork, hwork', hmarks⟩ := hdoes
  have hgoes := hdeed.goesBack ticket
  simp only [GoesBack, hwork, hwork', hmarks, List.mem_append] at h ⊢
  tauto

namespace GateSession

/-- A permit that a task drops is going back. -/
theorem goesBack_drop {ticket : Nat} (h : ticket ∈ s.table.permits) :
    (s.act (.drop ticket)).GoesBack ticket := by
  refine .inl ?_
  simp [act, part, h, work]

omit [DecidableEq η] in
theorem GoesBack.of_atRest {ticket : Nat} (h : s.GoesBack ticket) (hrest : s.atRest = true) :
    .became ticket .returned ∈ s.marks := by
  rcases h with hmem | hmem | hmark
  · exact absurd (List.all_eq_true.mp hrest _ hmem) (by simp [isCall])
  · exact absurd (List.all_eq_true.mp hrest _ hmem) (by simp [isCall])
  · exact hmark

end GateSession

end EventReplay
