import Mathlib.Logic.Function.Basic
import Mathlib.Tactic.Common
import EventReplay.Replay.Step

/-!
# The hooks that are still to run

`Replay.owed` lists, for each handle, the hooks that have not run: those of a round that is being told,
those that its completion keeps, and those that the producer is about to register, in this order. All
that telling, queueing and ending rounds ever do to this list is to take its head away, and that is
when the hook at the head runs, with the outcome of the handle (`Turn`).
-/

set_option autoImplicit false

namespace EventReplay

/-- The hooks on a handle that the producer is about to register. -/
def Stage.unregistered : Stage → Nat → List Hook
  | .hooking _ handle hooks, h => if h = handle then hooks else []
  | _, _ => []

/-! ## What a hook changes -/

namespace Hook

/-- What a hook does to the tracker. -/
def onTracker : Hook → Tracker → Tracker
  | settle outbound, tracker => tracker.complete outbound
  | _, tracker => tracker

/-- What a hook does to the gate. -/
def onGate : Hook → Gate → Gate
  | release, gate => gate.release
  | _, gate => gate

/-- The failures that a hook counts. -/
def failures (outcome : Outcome) : Hook → Nat
  | countFailure .. => if outcome.fault?.isSome then 1 else 0
  | _ => 0

/-- A hook that notes what becomes of a marker; it does nothing else. -/
def IsNote (hook : Hook) : Prop := ∃ shard watermark, hook = .noteMarker shard watermark

/-- What a hook does to the metrics. -/
def onMetrics (outcome : Outcome) (hook : Hook) (metrics : Option ReplayMetrics) :
    Option ReplayMetrics :=
  if hook.failures outcome = 1 then metrics.map ReplayMetrics.recordFailure else metrics

end Hook

/-! ## What is still to run -/

namespace Replay

variable {σ : Type}

/-- How far the outcome of a handle has been told. -/
def telling? (r : Replay σ) (h : Nat) : Option Telling := r.tellings.find? fun t => t.handle = h

/-- The outcome of a handle, once it has been told. -/
def outcomeOf (r : Replay σ) (h : Nat) : Option Outcome := (r.completion? h).bind Completion.outcome?

/-- The hooks on a handle that have been registered and not run. -/
def queued (r : Replay σ) (h : Nat) : List Hook :=
  ((r.telling? h).elim [] Telling.round) ++ ((r.completion? h).elim [] Completion.kept)

/-- The hooks on a handle that are still to run. -/
def owed (r : Replay σ) (h : Nat) : List Hook := r.queued h ++ r.stage.unregistered h

/-! ## Completions and those who tell them -/

/-- What is known of a handle fits the one who tells its outcome: there is one exactly while rounds of
hooks are running. -/
inductive Linked (h : Nat) : Option (Completion Hook) → Option Telling → Prop where
  | unknown : Linked h none none
  | pending (waiting : List Hook) : Linked h (some (.pending waiting)) none
  | draining (outcome : Outcome) (late round : List Hook) :
      Linked h (some (.draining outcome late)) (some ⟨h, outcome, round⟩)
  | resolved (outcome : Outcome) : Linked h (some (.resolved outcome)) none

/-- Handles are known in the order of their numbers, and tellings fit completions. -/
structure Coherent (r : Replay σ) : Prop where
  linked : ∀ h, Linked h (r.completion? h) (r.telling? h)
  known : ∀ h, r.completion? h = none ↔ r.nextHandle ≤ h

theorem lookup_replaceCompletion (handle : Nat) (c : Completion Hook)
    (cs : List (Nat × Completion Hook)) (h : Nat) :
    (replaceCompletion handle c cs).lookup h =
      if h = handle then (cs.lookup handle).map fun _ => c else cs.lookup h := by
  induction cs with
  | nil => simp [replaceCompletion]
  | cons entry rest ih =>
      obtain ⟨k, c'⟩ := entry
      simp only [replaceCompletion]
      split <;> grind

/-- Replacing a completion by one that it already is changes nothing. -/
theorem replaceCompletion_self {handle : Nat} {c : Completion Hook}
    {cs : List (Nat × Completion Hook)} (h : cs.lookup handle = some c) :
    replaceCompletion handle c cs = cs := by
  induction cs with
  | nil => rfl
  | cons entry rest ih =>
      obtain ⟨k, c'⟩ := entry
      simp only [replaceCompletion]
      split <;> grind

variable {r : Replay σ} {handle : Nat} {c : Completion Hook}

theorem completion?_setCompletion (hc : r.completion? handle ≠ none) :
    (r.setCompletion handle c).completion? = Function.update r.completion? handle (some c) := by
  funext h
  obtain ⟨c', hc'⟩ := Option.ne_none_iff_exists'.mp hc
  simp only [completion?, setCompletion] at hc' ⊢
  rw [lookup_replaceCompletion, Function.update_apply, hc']
  rfl

theorem setCompletion_self (hc : r.completion? handle = some c) :
    r.setCompletion handle c = r := by
  simp only [setCompletion, replaceCompletion_self hc]

/-- The telling of a handle goes on with another round; the others stay as they are. -/
theorem find?_resume (ts : List Telling) (handle : Nat) (round : List Hook) (h : Nat) :
    (ts.map fun t => if t.handle = handle then { t with round } else t).find?
        (fun t => t.handle = h) =
      if h = handle then (ts.find? fun t => t.handle = handle).map fun t => { t with round }
      else ts.find? fun t => t.handle = h := by
  induction ts with
  | nil => simp
  | cons t ts ih =>
      rw [List.map_cons, List.find?_cons, ih]
      by_cases hh : h = handle
      · subst hh
        by_cases ht : t.handle = h <;> simp [ht]
      · by_cases ht : t.handle = handle
        · have hne : t.handle ≠ h := by
            intro heq
            exact hh (heq.symm.trans ht)
          simp [ht, hh, Ne.symm hh]
        · simp [ht, hh, List.find?_cons]

theorem find?_forget (ts : List Telling) (handle h : Nat) :
    (ts.filter fun t => t.handle ≠ handle).find? (fun t => t.handle = h) =
      if h = handle then none else ts.find? fun t => t.handle = h := by
  induction ts with
  | nil => simp
  | cons t ts ih =>
      by_cases ht : t.handle = handle
      · by_cases hh : h = handle
        · simp_all
        · rw [List.filter_cons_of_neg (by simp [ht]), ih, if_neg hh, if_neg hh,
            List.find?_cons_of_neg (by simp [ht, Ne.symm hh])]
      · rw [List.filter_cons_of_pos (by simp [ht]), List.find?_cons, List.find?_cons, ih]
        by_cases hh : h = handle
        · simp [hh, ht]
        · simp [hh]

theorem runHook_eq (r : Replay σ) (outcome : Outcome) (hook : Hook) :
    (r.runHook outcome hook).1 =
      { r with
        tracker := hook.onTracker r.tracker
        gate := hook.onGate r.gate
        tally := { r.tally with failed := r.tally.failed + hook.failures outcome }
        metrics := hook.onMetrics outcome r.metrics } := by
  cases hook with
  | settle outbound => rfl
  | countFailure timestamp key => cases outcome <;> rfl
  | release => rfl
  | noteMarker shard watermark => cases outcome <;> rfl

/-! ## Turns -/

/-- A stage goes on by at most one hook that has been registered. -/
inductive Stage.Registers : Stage → Stage → Prop where
  | none (stage : Stage) : Registers stage stage
  | one (event : Event) (handle : Nat) (hook : Hook) (hooks : List Hook) :
      Registers (.hooking event handle (hook :: hooks)) (.hooking event handle hooks)

/-- What telling outcomes and registering hooks come to: the hooks that are still to run stay the same,
or the first of a handle runs with the outcome of the handle. -/
inductive Turn (r r' : Replay σ) : Prop where
  | quiet (completions : List (Nat × Completion Hook)) (tellings : List Telling) (stage : Stage)
      (eq : r' = { r with completions, tellings, stage })
      (registers : Stage.Registers r.stage stage)
      (coherent : Coherent r') (owed : r'.owed = r.owed)
      (outcomes : ∀ h outcome, r.outcomeOf h = some outcome → r'.outcomeOf h = some outcome)
  | ran (tellings : List Telling) (stage : Stage) (handle : Nat) (outcome : Outcome) (hook : Hook)
      (hooks : List Hook)
      (eq : r' = (runHook { r with tellings, stage } outcome hook).1)
      (registers : Stage.Registers r.stage stage)
      (coherent : Coherent { r with tellings, stage })
      (told : r.outcomeOf handle = some outcome)
      (head : r.owed handle = hook :: hooks)
      (owed : owed { r with tellings, stage } = Function.update r.owed handle hooks)

theorem Turn.registers {r' : Replay σ} (ht : Turn r r') : Stage.Registers r.stage r'.stage := by
  cases ht with
  | quiet completions tellings stage heq hregisters => exact heq ▸ hregisters
  | ran tellings stage handle outcome hook hooks heq hregisters =>
      rw [heq, runHook_eq]
      exact hregisters

theorem Turn.refl (hc : Coherent r) : Turn r r :=
  .quiet r.completions r.tellings r.stage rfl (.none _) hc rfl fun _ _ h => h

theorem Coherent.telling_of_draining {outcome : Outcome} {late : List Hook} (hc : Coherent r)
    (h : r.completion? handle = some (.draining outcome late)) :
    ∃ round, r.telling? handle = some ⟨handle, outcome, round⟩ := by
  have hl := hc.linked handle
  rw [h] at hl
  generalize r.telling? handle = t at hl
  cases hl with
  | draining outcome late round => exact ⟨round, rfl⟩

theorem Coherent.telling_eq_none (hc : Coherent r) (h : ∀ outcome late,
    r.completion? handle ≠ some (.draining outcome late)) : r.telling? handle = none := by
  have hl := hc.linked handle
  generalize r.completion? handle = c at hl h
  generalize r.telling? handle = t at hl
  cases hl with
  | draining outcome late round => exact absurd rfl (h outcome late)
  | _ => rfl

theorem Coherent.draining_of_telling {t : Telling} (hc : Coherent r)
    (h : r.telling? handle = some t) :
    t.handle = handle ∧ ∃ late, r.completion? handle = some (.draining t.outcome late) := by
  have hl := hc.linked handle
  rw [h] at hl
  generalize r.completion? handle = c at hl
  cases hl with
  | draining outcome late round => exact ⟨rfl, late, rfl⟩

/-- `r'` differs from `r` only in the completion of a handle and in who tells its outcome. -/
structure Resettled (r r' : Replay σ) (handle : Nat) (c : Completion Hook) (t : Option Telling) :
    Prop where
  eq : r' = { r with completions := r'.completions, tellings := r'.tellings }
  completion : r'.completion? = Function.update r.completion? handle (some c)
  telling : r'.telling? = Function.update r.telling? handle t
  known : r.completion? handle ≠ none
  linked : Linked handle (some c) t

namespace Resettled

variable {r' : Replay σ} {t : Option Telling} (s : Resettled r r' handle c t)

include s

theorem stage : r'.stage = r.stage := by rw [s.eq]

theorem nextHandle : r'.nextHandle = r.nextHandle := by rw [s.eq]

theorem coherent (hc : Coherent r) : Coherent r' := by
  constructor
  · intro h
    rw [s.completion, s.telling, Function.update_apply, Function.update_apply]
    by_cases hh : h = handle
    · subst hh
      simpa using s.linked
    · simpa [hh] using hc.linked h
  · intro h
    rw [s.completion, s.nextHandle, Function.update_apply]
    by_cases hh : h = handle
    · subst hh
      simpa using (not_congr (hc.known h)).mp s.known
    · simpa [hh] using hc.known h

theorem queued : r'.queued =
    Function.update r.queued handle (t.elim [] Telling.round ++ c.kept) := by
  funext h
  simp only [Replay.queued, s.completion, s.telling, Function.update_apply]
  split <;> rfl

theorem owed : r'.owed = Function.update r.owed handle
    (t.elim [] Telling.round ++ c.kept ++ r.stage.unregistered handle) := by
  funext h
  simp only [Replay.owed, s.queued, s.stage, Function.update_apply]
  split
  · rename_i hh
    rw [hh]
  · rfl

theorem outcomeOf : r'.outcomeOf = Function.update r.outcomeOf handle c.outcome? := by
  funext h
  simp only [Replay.outcomeOf, s.completion, Function.update_apply]
  split <;> rfl

/-- Where the hooks that are still to run stay the same, and an outcome that has been told, nothing
else can be seen of the step. -/
theorem turn (hc : Coherent r) (howed : t.elim [] Telling.round ++ c.kept = r.queued handle)
    (hout : ∀ outcome, r.outcomeOf handle = some outcome → c.outcome? = some outcome) :
    Turn r r' := by
  refine .quiet r'.completions r'.tellings r.stage s.eq (.none _) (s.coherent hc) ?_ ?_
  · rw [s.owed, howed, Function.update_eq_self_iff]
    rfl
  · intro h outcome h'
    rw [s.outcomeOf, Function.update_apply]
    split
    · rename_i hh
      exact hout outcome (hh ▸ h')
    · exact h'

end Resettled

theorem turn_tell (hc : Coherent r) (outcome : Outcome) : Turn r (r.tell handle outcome) := by
  simp only [tell]
  rcases hcomp : r.completion? handle with _ | (waiting | ⟨outcome', late⟩ | outcome')
  · exact .refl hc
  · have hknown : r.completion? handle ≠ none := by simp [hcomp]
    have hnone : r.telling? handle = none := hc.telling_eq_none (by simp [hcomp])
    have s : Resettled r { r.setCompletion handle (.draining outcome []) with
        tellings := r.tellings ++ [⟨handle, outcome, waiting⟩] } handle (.draining outcome [])
        (some ⟨handle, outcome, waiting⟩) := by
      refine ⟨rfl, completion?_setCompletion hknown, ?_, hknown, .draining ..⟩
      funext h
      simp only [telling?, Function.update_apply] at hnone ⊢
      split
      · rename_i hh
        subst hh
        simp [hnone]
      · rename_i hh
        simp [Ne.symm hh]
    refine s.turn hc ?_ ?_
    · simp [queued, hcomp, hnone, Completion.kept]
    · simp [outcomeOf, hcomp, Completion.outcome?]
  · exact .refl hc
  · exact .refl hc

/-! The one who tells an outcome runs the next hook, starts the next round, or ends. -/

theorem continueTelling_none (h : r.telling? handle = none) : r.continueTelling handle = (r, []) := by
  simp only [telling?] at h
  simp only [continueTelling, h]

/-- The telling of a handle with other hooks in its round. -/
def resume (r : Replay σ) (handle : Nat) (round : List Hook) : Replay σ :=
  { r with tellings := r.tellings.map fun t => if t.handle = handle then { t with round } else t }

theorem continueTelling_hook {outcome : Outcome} {hook : Hook} {hooks : List Hook}
    (h : r.telling? handle = some ⟨handle, outcome, hook :: hooks⟩) :
    r.continueTelling handle = (r.resume handle hooks).runHook outcome hook := by
  simp only [telling?] at h
  simp only [continueTelling, h, resume]

theorem continueTelling_round {outcome : Outcome} {hook : Hook} {late : List Hook}
    (h : r.telling? handle = some ⟨handle, outcome, []⟩)
    (hcomp : r.completion? handle = some (.draining outcome (hook :: late))) :
    r.continueTelling handle =
      ((r.setCompletion handle (.draining outcome [])).resume handle (hook :: late), []) := by
  simp only [telling?] at h
  simp only [continueTelling, h, hcomp, Option.map_some, Completion.nextRound]
  rfl

theorem continueTelling_end {outcome : Outcome} (h : r.telling? handle = some ⟨handle, outcome, []⟩)
    (hcomp : r.completion? handle = some (.draining outcome [])) :
    r.continueTelling handle =
      ({ r.setCompletion handle (.resolved outcome) with
        tellings := r.tellings.filter fun t => t.handle ≠ handle }, []) := by
  simp only [telling?] at h
  simp only [continueTelling, h, hcomp, Option.map_some, Completion.nextRound]

theorem telling?_resume {outcome : Outcome} {round : List Hook}
    (h : r.telling? handle = some ⟨handle, outcome, round⟩) (round' : List Hook) :
    (r.resume handle round').telling? =
      Function.update r.telling? handle (some ⟨handle, outcome, round'⟩) := by
  funext h'
  simp only [telling?] at h
  simp only [telling?, resume, find?_resume, Function.update_apply, h, Option.map_some]

theorem turn_continueTelling (hc : Coherent r) : Turn r (r.continueTelling handle).1 := by
  rcases ht : r.telling? handle with _ | ⟨handle', outcome, round⟩
  · rw [continueTelling_none ht]
    exact .refl hc
  obtain ⟨rfl, late, hcomp⟩ := hc.draining_of_telling ht
  simp only at hcomp
  have hknown : r.completion? handle' ≠ none := by simp [hcomp]
  have hout : r.outcomeOf handle' = some outcome := by
    simp [outcomeOf, hcomp, Completion.outcome?]
  have hqueued : r.queued handle' = round ++ late := by
    simp [queued, hcomp, ht, Completion.kept]
  rcases round with _ | ⟨hook, hooks⟩
  -- the round is over: the next one, if there is one, moves up without a change of order
  · rcases late with _ | ⟨hook, late⟩
    · rw [continueTelling_end ht hcomp]
      have s : Resettled r { r.setCompletion handle' (.resolved outcome) with
          tellings := r.tellings.filter fun t => t.handle ≠ handle' } handle'
          (.resolved outcome) none := by
        refine ⟨rfl, completion?_setCompletion hknown, ?_, hknown, .resolved _⟩
        funext h
        simp only [telling?, find?_forget, Function.update_apply]
      exact s.turn hc hqueued.symm fun _ h => hout.symm.trans h
    · rw [continueTelling_round ht hcomp]
      have s : Resettled r ((r.setCompletion handle' (.draining outcome [])).resume handle'
          (hook :: late)) handle' (.draining outcome [])
          (some ⟨handle', outcome, hook :: late⟩) :=
        ⟨rfl, completion?_setCompletion hknown, telling?_resume ht _, hknown, .draining ..⟩
      exact s.turn hc (by simp [hqueued, Completion.kept]) fun _ h => hout.symm.trans h
  · rw [continueTelling_hook ht]
    have s : Resettled r (r.resume handle' hooks) handle' (.draining outcome late)
        (some ⟨handle', outcome, hooks⟩) := by
      refine ⟨rfl, ?_, telling?_resume ht _, hknown, .draining ..⟩
      rw [← hcomp, Function.update_eq_self]
      rfl
    refine .ran _ r.stage handle' outcome hook (hooks ++ late ++ r.stage.unregistered handle') rfl
      (.none _) (s.coherent hc) hout ?_ s.owed
    simp [owed, hqueued]

theorem unregistered_hooking (event : Event) (handle : Nat) (hooks : List Hook) :
    Stage.unregistered (.hooking event handle hooks) =
      Function.update (fun _ => []) handle hooks := by
  funext h
  simp only [Stage.unregistered, Function.update_apply]

theorem register_resolved {hook : Hook} {outcome : Outcome}
    (hcomp : r.completion? handle = some (.resolved outcome)) :
    r.register handle hook = r.runHook outcome hook := by
  simp only [register, hcomp, Completion.register, setCompletion_self hcomp]

theorem owed_hooking {event : Event} {hooks : List Hook}
    (hstage : r.stage = .hooking event handle hooks) :
    r.owed = fun h => r.queued h ++ Function.update (fun _ => []) handle hooks h := by
  funext h
  rw [owed, hstage, unregistered_hooking]

/-- A hook that is queued moves from the producer's list to the end of the completion's. -/
theorem turn_queue (hc : Coherent r) {event : Event} {hook : Hook} {hooks : List Hook}
    (hstage : r.stage = .hooking event handle (hook :: hooks)) (hne : r.completion? handle ≠ none)
    (hregister : (r.register handle hook).1 = r.setCompletion handle c)
    (hlinked : Linked handle (some c) (r.telling? handle))
    (hkept : (r.telling? handle).elim [] Telling.round ++ c.kept = r.queued handle ++ [hook])
    (hout : c.outcome? = r.outcomeOf handle) :
    Turn r { (r.register handle hook).1 with stage := .hooking event handle hooks } := by
  have s : Resettled r (r.setCompletion handle c) handle c (r.telling? handle) :=
    ⟨rfl, completion?_setCompletion hne, by rw [Function.update_eq_self]; rfl, hne, hlinked⟩
  rw [hregister]
  refine .quiet _ _ _ rfl (hstage ▸ .one ..) ⟨(s.coherent hc).linked, (s.coherent hc).known⟩ ?_ ?_
  · funext h
    rw [owed_hooking hstage]
    show (r.setCompletion handle c).queued h ++ _ = _
    rw [s.queued, hkept, unregistered_hooking]
    simp only [Function.update_apply]
    split
    · rename_i hh
      rw [hh, List.append_assoc]
      rfl
    · rfl
  · intro h outcome h'
    show (r.setCompletion handle c).outcomeOf h = _
    rw [s.outcomeOf, hout, Function.update_eq_self]
    exact h'

/-- A hook that the producer registers is queued, or runs at once when all rounds are over. -/
theorem turn_register (hc : Coherent r) {event : Event} {hook : Hook} {hooks : List Hook}
    (hstage : r.stage = .hooking event handle (hook :: hooks)) (hknown : handle < r.nextHandle) :
    Turn r { (r.register handle hook).1 with stage := .hooking event handle hooks } := by
  have hne : r.completion? handle ≠ none := by
    rw [ne_eq, hc.known]
    omega
  rcases hcomp : r.completion? handle with _ | (waiting | ⟨outcome, late⟩ | outcome)
  · exact absurd hcomp hne
  -- no outcome yet
  · have hnone : r.telling? handle = none := hc.telling_eq_none (by simp [hcomp])
    refine turn_queue hc hstage hne (c := .pending (waiting ++ [hook])) ?_ (hnone ▸ .pending _) ?_ ?_
    · simp only [register, hcomp, Completion.register]
    · simp [queued, hcomp, hnone, Completion.kept]
    · simp [outcomeOf, hcomp, Completion.outcome?]
  -- rounds are running, and the hook is for a later one
  · obtain ⟨round, ht⟩ := hc.telling_of_draining hcomp
    refine turn_queue hc hstage hne (c := .draining outcome (late ++ [hook])) ?_ (ht ▸ .draining ..)
      ?_ ?_
    · simp only [register, hcomp, Completion.register]
    · simp [queued, hcomp, ht, Completion.kept]
    · simp [outcomeOf, hcomp, Completion.outcome?]
  -- all rounds are over, and nothing is queued that the hook would come before
  · have hnone : r.telling? handle = none := hc.telling_eq_none (by simp [hcomp])
    have hqueued : r.queued handle = [] := by simp [queued, hcomp, hnone, Completion.kept]
    have howed := owed_hooking hstage
    rw [register_resolved hcomp]
    refine .ran r.tellings (.hooking event handle hooks) handle outcome hook hooks ?_
      (hstage ▸ .one ..) ⟨hc.linked, hc.known⟩ ?_ ?_ ?_
    · rw [runHook_eq, runHook_eq]
    · simp [outcomeOf, hcomp, Completion.outcome?]
    · simp [howed, hqueued]
    · funext h
      show r.queued h ++ _ = _
      rw [howed, unregistered_hooking]
      simp only [Function.update_apply]
      split
      · rename_i hh
        rw [hh, hqueued, List.nil_append]
      · rfl

/-! ## New handles -/

theorem lookup_fresh (first count h : Nat) :
    ((List.range' first count).map fun handle =>
        (handle, (Completion.fresh : Completion Hook))).reverse.lookup h =
      if first ≤ h ∧ h < first + count then some .fresh else none := by
  induction count with
  | zero =>
      rw [if_neg (by omega)]
      rfl
  | succ count ih =>
      rw [List.range'_concat, List.map_append, List.reverse_append, Nat.one_mul]
      simp only [List.map_cons, List.map_nil, List.reverse_cons, List.reverse_nil, List.nil_append,
        List.singleton_append, List.lookup_cons, ih]
      grind

theorem completion?_openHandles (r : Replay σ) (count h : Nat) :
    (r.openHandles count).completion? h =
      if r.nextHandle ≤ h ∧ h < r.nextHandle + count then some .fresh else r.completion? h := by
  simp only [completion?, openHandles, List.lookup_append, lookup_fresh]
  split <;> rfl

theorem Coherent.telling_of_unknown (hc : Coherent r) {h : Nat} (hh : r.nextHandle ≤ h) :
    r.telling? h = none :=
  hc.telling_eq_none (by simp [(hc.known h).mpr hh])

theorem Coherent.openHandles (hc : Coherent r) (count : Nat) : Coherent (r.openHandles count) := by
  constructor
  · intro h
    rw [completion?_openHandles]
    split
    · rename_i hh
      rw [show (r.openHandles count).telling? h = none from hc.telling_of_unknown hh.1]
      exact .pending []
    · exact hc.linked h
  · intro h
    have hknown := hc.known h
    rw [completion?_openHandles]
    show _ ↔ r.nextHandle + count ≤ h
    split
    · simp only [reduceCtorEq, false_iff]
      omega
    · rw [hknown]
      omega

theorem Coherent.queued_of_unknown (hc : Coherent r) {h : Nat} (hh : r.nextHandle ≤ h) :
    r.queued h = [] := by
  simp [queued, (hc.known h).mpr hh, hc.telling_of_unknown hh]

theorem Coherent.owed_openHandles (hc : Coherent r) (count : Nat) :
    (r.openHandles count).owed = r.owed := by
  funext h
  simp only [owed, queued, completion?_openHandles]
  split
  · rename_i hh
    rw [(hc.known h).mpr hh.1]
    rfl
  · rfl

theorem Coherent.outcomeOf_openHandles (hc : Coherent r) (count : Nat) :
    (r.openHandles count).outcomeOf = r.outcomeOf := by
  funext h
  simp only [outcomeOf, completion?_openHandles]
  split
  · rename_i hh
    rw [(hc.known h).mpr hh.1]
    rfl
  · rfl

/-! ## Markers -/

/-- `r'` is `r` after hooks that only note have been queued on some handles. -/
structure Noting (r r' : Replay σ) (handles : List Nat) : Prop where
  coherent : Coherent r'
  outcomes : r'.outcomeOf = r.outcomeOf
  owed : ∀ h, h ∉ handles → r'.owed h = r.owed h
  notes : ∀ h, ∀ hook ∈ r'.owed h, hook ∈ r.owed h ∨ hook.IsNote

theorem register_pending {hook : Hook} {waiting : List Hook}
    (hcomp : r.completion? handle = some (.pending waiting)) :
    r.register handle hook = (r.setCompletion handle (.pending (waiting ++ [hook])), []) := by
  simp only [register, hcomp, Completion.register]

theorem registerAll_notes (hooks : List (Nat × Hook)) (r : Replay σ) (hc : Coherent r)
    (hnote : ∀ entry ∈ hooks, entry.2.IsNote)
    (hpending : ∀ entry ∈ hooks, ∃ waiting, r.completion? entry.1 = some (.pending waiting)) :
    ∃ completions, r.registerAll hooks = ({ r with completions }, []) ∧
      Noting r { r with completions } (hooks.map Prod.fst) := by
  induction hooks generalizing r with
  | nil => exact ⟨r.completions, rfl, hc, rfl, fun _ _ => rfl, fun _ _ h => .inl h⟩
  | cons entry hooks ih =>
      obtain ⟨handle, hook⟩ := entry
      obtain ⟨waiting, hcomp⟩ := hpending _ (.head _)
      have hknown : r.completion? handle ≠ none := by simp [hcomp]
      have hnone : r.telling? handle = none := hc.telling_eq_none (by simp [hcomp])
      -- the hook is queued, and no one tells anything of the handle, before and after
      set r₁ := r.setCompletion handle (.pending (waiting ++ [hook])) with hr₁
      have s : Resettled r r₁ handle (.pending (waiting ++ [hook])) none := by
        refine ⟨rfl, completion?_setCompletion hknown, ?_, hknown, .pending _⟩
        rw [← hnone, Function.update_eq_self]
        rfl
      have howed : r₁.owed = Function.update r.owed handle
          (waiting ++ [hook] ++ r.stage.unregistered handle) := s.owed
      have hout : r₁.outcomeOf = r.outcomeOf := by
        rw [s.outcomeOf, Function.update_eq_self_iff]
        simp [outcomeOf, hcomp, Completion.outcome?]
      obtain ⟨completions, hall, hcoherent, houts, hsame, hnotes⟩ :=
        ih r₁ (s.coherent hc) (fun e he => hnote e (.tail _ he)) (by
          intro e he
          obtain ⟨waiting', he'⟩ := hpending e (.tail _ he)
          rw [s.completion, Function.update_apply]
          split
          · exact ⟨_, rfl⟩
          · exact ⟨waiting', he'⟩)
      refine ⟨completions, ?_, hcoherent, houts.trans hout, ?_, ?_⟩
      · simp only [registerAll, register_pending hcomp, ← hr₁, hall]
        rfl
      · intro h hh
        simp only [List.map_cons, List.mem_cons, not_or] at hh
        exact (hsame h hh.2).trans (by rw [howed, Function.update_of_ne hh.1])
      · intro h hook' hmem
        rcases hnotes h hook' hmem with hmem | hmem
        · rw [howed, Function.update_apply] at hmem
          split at hmem
          · rename_i hh
            subst hh
            simp only [List.mem_append, List.mem_singleton] at hmem
            rcases hmem with (hmem | rfl) | hmem
            · exact .inl (by simp [owed, queued, hcomp, hnone, Completion.kept, hmem])
            · exact .inr (hnote _ (.head _))
            · exact .inl (by simp [owed, hmem])
          · exact .inl hmem
        · exact .inr hmem

/-- `r'` is `r` after a marker has been broadcast, if there is one: there are new handles, whose hooks
only note. -/
structure Marked (r r' : Replay σ) (marker : Option Watermark) : Prop where
  eq : r' = { r with
    completions := r'.completions
    nextHandle := r'.nextHandle
    metrics := marker.elim r.metrics fun w => r.metrics.map (·.recordWatermark w.value) }
  nextHandle : r.nextHandle ≤ r'.nextHandle
  coherent : Coherent r'
  outcomes : r'.outcomeOf = r.outcomeOf
  owed : ∀ h < r.nextHandle, r'.owed h = r.owed h
  notes : ∀ h, ∀ hook ∈ r'.owed h, hook ∈ r.owed h ∨ hook.IsNote

namespace Marked

variable {r' : Replay σ} {marker : Option Watermark} (h : Marked r r' marker)

include h

theorem source : r'.source = r.source := by rw [h.eq]

theorem stage : r'.stage = r.stage := by rw [h.eq]

theorem gate : r'.gate = r.gate := by rw [h.eq]

theorem tracker : r'.tracker = r.tracker := by rw [h.eq]

theorem tally : r'.tally = r.tally := by rw [h.eq]

end Marked

/-- The tracker has no part in how handles and callbacks hang together. -/
theorem Coherent.setTracker (hc : Coherent r) (tracker : Tracker) : Coherent { r with tracker } :=
  ⟨hc.linked, hc.known⟩

theorem broadcastMarker_spec (hc : Coherent r) (marker : Option Watermark) :
    Marked r (r.broadcastMarker marker).1 marker ∧ (r.broadcastMarker marker).2 =
      (marker.map fun w => .broadcast r.nextHandle r.plan.stream (encodeWatermark w)).toList := by
  cases marker with
  | none => exact ⟨⟨rfl, Nat.le_refl _, hc, rfl, fun _ _ => rfl, fun _ _ h => .inl h⟩, rfl⟩
  | some watermark =>
      obtain ⟨completions, hall, hcoherent, houts, hsame, hnotes⟩ := registerAll_notes
        ((List.range r.shards).map fun n => (r.nextHandle + n, Hook.noteMarker n watermark.value))
        (r.openHandles r.shards) (hc.openHandles _)
        (by
          intro e he
          obtain ⟨n, -, rfl⟩ := List.mem_map.mp he
          exact ⟨n, watermark.value, rfl⟩)
        (by
          intro e he
          obtain ⟨n, hn, rfl⟩ := List.mem_map.mp he
          rw [List.mem_range] at hn
          exact ⟨[], by rw [completion?_openHandles, if_pos (by simp; omega)]; rfl⟩)
      refine ⟨⟨?_, ?_, ?_, ?_, ?_, ?_⟩, ?_⟩ <;> simp only [broadcastMarker, hall]
      · rfl
      · exact Nat.le_add_right ..
      · exact ⟨hcoherent.linked, hcoherent.known⟩
      · exact houts.trans (hc.outcomeOf_openHandles _)
      · intro h hh
        refine (hsame h ?_).trans (congrFun (hc.owed_openHandles _) h)
        simp only [List.map_map, List.mem_map, List.mem_range, Function.comp_apply, not_exists, not_and]
        intro n _ hn
        omega
      · intro h hook hmem
        rcases hnotes h hook hmem with hmem | hmem
        · exact .inl (congrFun (hc.owed_openHandles r.shards) h ▸ hmem)
        · exact .inr hmem
      · rfl

end Replay

end EventReplay
