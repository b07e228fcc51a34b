import EventReplay.Proofs.GateSession

/-!
# The books of a gate

What has become of the calls at a gate is read off its marks, and what is still to become of them off the
threads and the completions. Each deed moves tickets from one to the other and loses none: a call is
answered or given up (`GateDeed.calls`), a permit is granted and then out until it is returned
(`GateDeed.out`), a drain has the units of the gate until they are back (`GateDeed.drains`), and the
count of permits follows (`GateDeed.counted`).
-/

set_option autoImplicit false

namespace EventReplay

variable {η : Type}

/-! ## What the marks tell -/

/-- The tickets of which something became, in order. -/
def GateMark.ticketsOf (fate : GateFate) (marks : List (GateMark η)) : List Nat :=
  marks.filterMap fun
    | .became ticket fate' => if fate' = fate then some ticket else none
    | _ => none

/-- The tickets of the calls, in order. -/
def GateMark.askedOf (marks : List (GateMark η)) : List Nat :=
  marks.filterMap fun
    | .asked ticket _ => some ticket
    | _ => none

/-- The tickets of the calls that have been answered or given up. -/
def GateMark.answeredOf (marks : List (GateMark η)) : List Nat :=
  ticketsOf .granted marks ++ ticketsOf .drained marks ++ ticketsOf .refused marks ++
    ticketsOf .cancelled marks

namespace GateMark

variable (fate : GateFate) (l m : List (GateMark η))

@[simp] theorem ticketsOf_nil : ticketsOf fate ([] : List (GateMark η)) = [] := rfl

@[simp] theorem ticketsOf_append : ticketsOf fate (l ++ m) = ticketsOf fate l ++ ticketsOf fate m :=
  List.filterMap_append

@[simp] theorem ticketsOf_singleton (mark : GateMark η) :
    ticketsOf fate [mark] = match mark with
      | became ticket fate' => if fate' = fate then [ticket] else []
      | _ => [] := by
  cases mark with
  | became ticket fate' => by_cases h : fate' = fate <;> simp [ticketsOf, h]
  | _ => rfl

@[simp] theorem askedOf_nil : askedOf ([] : List (GateMark η)) = [] := rfl

@[simp] theorem askedOf_append : askedOf (l ++ m) = askedOf l ++ askedOf m := List.filterMap_append

@[simp] theorem askedOf_singleton (mark : GateMark η) :
    askedOf [mark] = match mark with
      | asked ticket _ => [ticket]
      | _ => [] := by
  cases mark <;> rfl

theorem answeredOf_append : (answeredOf (l ++ m)).Perm (answeredOf l ++ answeredOf m) := by
  rw [List.perm_iff_count]
  intro ticket
  simp only [answeredOf, ticketsOf_append, List.count_append]
  omega

theorem mem_ticketsOf {fate : GateFate} {marks : List (GateMark η)} {ticket : Nat} :
    ticket ∈ ticketsOf fate marks ↔ .became ticket fate ∈ marks := by
  rw [ticketsOf, List.mem_filterMap]
  constructor
  · rintro ⟨mark, hmem, hmark⟩
    cases mark with
    | became ticket' fate' =>
        obtain ⟨rfl, rfl⟩ : fate' = fate ∧ ticket' = ticket := by simpa using hmark
        exact hmem
    | _ => simp at hmark
  · exact fun hmem => ⟨_, hmem, by simp⟩

end GateMark

/-- What has come in is done with or still there, and so it is one step later. -/
theorem perm_step {asked asked' done done' before old new after : List Nat}
    (h : asked.Perm (done ++ (before ++ old ++ after))) (hstep : (asked' ++ old).Perm (done' ++ new)) :
    (asked ++ asked').Perm (done ++ done' ++ (before ++ new ++ after)) := by
  rw [List.perm_iff_count] at h hstep ⊢
  intro ticket
  have h := h ticket
  have hstep := hstep ticket
  simp only [List.count_append] at h hstep ⊢
  omega

/-! ## What the threads hold -/

namespace GateWork

/-- The permit whose unit a thread holds. -/
def holds : GateWork η → List Nat
  | countUp ticket _ | raisePeak ticket .. | register ticket _ | countDown ticket | putBack ticket =>
    [ticket]
  | call .. | refill _ | endRound _ => []

/-- The permit whose unit a thread holds and that is not counted: yet, or any more. -/
def uncounted : GateWork η → List Nat
  | countUp ticket _ | putBack ticket => [ticket]
  | _ => []

/-- The drain whose units a thread holds. -/
def drains : GateWork η → List Nat
  | refill ticket => [ticket]
  | _ => []

/-- The call that a thread waits for. -/
def awaits : GateWork η → List (Nat × GateWish η)
  | call ticket wish => [(ticket, wish)]
  | _ => []

/-- In a round, each thread holds the permit that goes back. -/
theorem holds_countDown (round : List Nat) :
    (round.map (.countDown : Nat → GateWork η)).flatMap holds = round := by
  simp [List.flatMap_map, holds]

/-- There is nothing else in a round. -/
theorem flatMap_countDown {α : Type} {f : GateWork η → List α} (hf : ∀ ticket, f (.countDown ticket) = [])
    (round : List Nat) : (round.map .countDown).flatMap f = [] := by
  simp [List.flatMap_map, hf]

end GateWork

/-! ## The permits that completions keep -/

namespace Completion

variable {κ : Type} {c c' : Completion κ} {k : κ} {round : List κ} {outcome : Outcome}

theorem kept_of_register_none (h : c.register k = (c', none)) : c'.kept = c.kept ++ [k] := by
  cases c <;> simp only [register, Prod.mk.injEq, reduceCtorEq, and_false, and_true] at h <;>
    subst h <;> rfl

theorem kept_of_register_some (h : c.register k = (c', some outcome)) : c'.kept = c.kept := by
  cases c <;> simp only [register, Prod.mk.injEq, reduceCtorEq, and_false] at h
  rw [← h.1]

theorem kept_of_tell (h : c.tell outcome = some (round, c')) : c.kept = round ++ c'.kept := by
  cases c <;> simp only [tell, Option.some.injEq, Prod.mk.injEq, reduceCtorEq] at h
  obtain ⟨rfl, rfl⟩ := h
  simp [kept]

theorem kept_of_nextRound (h : c.nextRound = (round, c')) : c.kept = round ++ c'.kept := by
  rcases c with _ | ⟨_, _ | _⟩ | _ <;> obtain ⟨rfl, rfl⟩ := Prod.mk.inj h <;> simp [kept]

end Completion

namespace GateTable

/-- The permits that go back on completions. -/
def kept (t : GateTable η) : List Nat := t.completions.flatMap fun entry => entry.2.kept

/-- Each handle has one completion. -/
def Keyed (t : GateTable η) : Prop := (t.completions.map Prod.fst).Nodup

/-- The permits in the hands of tasks, those that go back on completions, and those that threads hold. -/
def out (t : GateTable η) (held : List Nat) : List Nat := t.permits ++ t.kept ++ held

variable {t : GateTable η}

/-- The permits that other threads hold stay as they are. -/
theorem out_append (t : GateTable η) (before held after : List Nat) :
    (t.out (before ++ held ++ after)).Perm (before ++ t.out held ++ after) := by
  rw [List.perm_iff_count]
  intro ticket
  simp only [out, List.count_append]
  omega

/-- A thread has one permit more. -/
theorem out_cons (t : GateTable η) (ticket : Nat) (held : List Nat) :
    (ticket :: t.out held).Perm (t.out (ticket :: held)) :=
  List.perm_middle.symm

/-- A permit goes from a thread to a task. -/
theorem out_permits_concat (t : GateTable η) (ticket : Nat) (held : List Nat) :
    (t.out (ticket :: held)).Perm ({ t with permits := t.permits ++ [ticket] }.out held) := by
  rw [List.perm_iff_count]
  intro other
  simp only [out, kept, List.count_append, List.count_cons, List.count_nil]
  omega

/-- A permit goes from a task to a thread. -/
theorem out_permits_erase {ticket : Nat} (h : ticket ∈ t.permits) (held : List Nat) :
    (t.out held).Perm ({ t with permits := t.permits.erase ticket }.out (ticket :: held)) := by
  rw [List.perm_iff_count]
  intro other
  have herase := (List.perm_cons_erase h).count_eq other
  simp only [out, kept, List.count_append, List.count_cons] at herase ⊢
  omega

variable [DecidableEq η]

theorem Keyed.setCompletion (h : t.Keyed) (handle : η) (c : Completion Nat) :
    (t.setCompletion handle c).Keyed := by
  refine List.nodup_cons.mpr ⟨by simp, ?_⟩
  exact h.sublist (List.filter_sublist.map _)

/-- The completion of a handle keeps some of the permits, and the others keep the rest. -/
theorem perm_kept_lookup {entries : List (η × Completion Nat)} (h : (entries.map Prod.fst).Nodup)
    (handle : η) : (entries.flatMap fun entry => entry.2.kept).Perm
      (((entries.lookup handle).getD .fresh).kept ++
        (entries.filter fun entry => entry.1 ≠ handle).flatMap fun entry => entry.2.kept) := by
  induction entries with
  | nil => exact .refl _
  | cons entry entries ih =>
      obtain ⟨key, c⟩ := entry
      obtain ⟨hnew, hnodup⟩ := List.nodup_cons.mp h
      by_cases hkey : key = handle
      · subst hkey
        have hothers : entries.filter (fun entry => entry.1 ≠ key) = entries := by
          rw [List.filter_eq_self]
          intro entry hentry
          have hne : entry.1 ≠ key := fun heq => hnew (heq ▸ List.mem_map.mpr ⟨entry, hentry, rfl⟩)
          simpa using hne
        rw [List.lookup_cons_self, List.filter_cons_of_neg (by simp), hothers]
        exact .refl _
      · rw [List.lookup_cons, beq_false_of_ne (Ne.symm hkey), List.filter_cons_of_pos (by simpa using hkey),
          List.flatMap_cons, List.flatMap_cons]
        exact ((ih hnodup).append_left _).trans (List.perm_append_comm_assoc ..)

theorem Keyed.kept_setCompletion (h : t.Keyed) (handle : η) (c : Completion Nat) :
    ((t.completion handle).kept ++ (t.setCompletion handle c).kept).Perm (c.kept ++ t.kept) :=
  (List.perm_append_comm_assoc ..).trans ((perm_kept_lookup h handle).symm.append_left _)

/-- Permits go from a thread to a completion, or from a completion to a thread. -/
theorem Keyed.out_setCompletion (h : t.Keyed) {handle : η} {c : Completion Nat}
    {held held' : List Nat} (hmoved : ((t.completion handle).kept ++ held).Perm (c.kept ++ held')) :
    (t.out held).Perm ((t.setCompletion handle c).out held') := by
  rw [List.perm_iff_count] at hmoved ⊢
  intro ticket
  have hmoved := hmoved ticket
  have hset := (h.kept_setCompletion handle c).count_eq ticket
  have hpermits : (t.setCompletion handle c).permits = t.permits := rfl
  simp only [out, List.count_append, hpermits] at hmoved hset ⊢
  omega

end GateTable

/-! ## What a deed does to the books -/

namespace GateDeed

open GateMark GateWork

variable [DecidableEq η] {t t' : GateTable η} {old new : List (GateWork η)}
  {marks : List (GateMark η)}

theorem keyed (h : GateDeed t old t' new marks) (hkeyed : t.Keyed) : t'.Keyed := by
  cases h with
  | keep _ handle c | atOnce _ handle c | tell handle _ _ c | nextRound handle _ c
  | lastRound handle c => exact hkeyed.setCompletion handle c
  | _ => exact hkeyed

/-- A permit that is granted is out until it is returned. -/
theorem out (h : GateDeed t old t' new marks) (hkeyed : t.Keyed) :
    (ticketsOf .granted marks ++ t.out (old.flatMap holds)).Perm
      (ticketsOf .returned marks ++ t'.out (new.flatMap holds)) := by
  cases h with
  | keep ticket handle c hc =>
      refine hkeyed.out_setCompletion ?_
      rw [Completion.kept_of_register_none hc]
      simp [holds]
  | atOnce ticket handle c outcome hc =>
      refine hkeyed.out_setCompletion ?_
      rw [Completion.kept_of_register_some hc]
      exact .refl _
  | tell handle outcome round c hc =>
      refine hkeyed.out_setCompletion ?_
      rw [Completion.kept_of_tell hc]
      simp [holds, holds_countDown, List.perm_append_comm]
  | nextRound handle round c hround hc =>
      refine hkeyed.out_setCompletion ?_
      rw [Completion.kept_of_nextRound hc]
      simp [holds, holds_countDown, List.perm_append_comm]
  | lastRound handle c hc =>
      refine hkeyed.out_setCompletion ?_
      rw [Completion.kept_of_nextRound hc]
      simp [holds]
  | part ticket work hmem hwork =>
      have hheld : [work].flatMap holds = [ticket] := by
        rcases hwork with rfl | ⟨handle, rfl⟩ <;> rfl
      rw [hheld]
      exact GateTable.out_permits_erase hmem []
  | handOut ticket level => exact t.out_permits_concat ticket []
  | grant ticket wish hwish hopen hready => exact t.out_cons ticket []
  | putBack ticket => exact (t.out_cons ticket []).symm
  | _ => exact .refl _

/-- A permit is counted after it is granted, and no longer once it comes back. -/
theorem counted (h : GateDeed t old t' new marks)
    (hcounted : ∀ ticket, .countDown ticket ∈ old → 0 < t.gate.outstanding) :
    t'.gate.outstanding + (new.flatMap uncounted).length + (ticketsOf .returned marks).length =
      t.gate.outstanding + (old.flatMap uncounted).length + (ticketsOf .granted marks).length := by
  cases h with
  | ask wish => exact Gate.outstanding_ask ..
  | part ticket work hmem hwork => rcases hwork with rfl | ⟨handle, rfl⟩ <;> rfl
  | tell handle outcome round c hc | nextRound handle round c hround hc =>
      rw [List.flatMap_append, flatMap_countDown fun _ => rfl]
      rfl
  | countDown ticket =>
      have hpos := hcounted ticket (List.mem_singleton_self _)
      show t.gate.outstanding - 1 + 1 = t.gate.outstanding
      omega
  | _ => rfl

/-- Each call is answered or given up once. -/
theorem calls (h : GateDeed t old t' new marks) :
    (askedOf marks ++ (old.flatMap awaits).map Prod.fst).Perm
      (answeredOf marks ++ (new.flatMap awaits).map Prod.fst) := by
  cases h with
  | part ticket work hmem hwork => rcases hwork with rfl | ⟨handle, rfl⟩ <;> exact .refl _
  | tell handle outcome round c hc | nextRound handle round c hround hc =>
      rw [List.flatMap_append, flatMap_countDown fun _ => rfl]
      exact .refl _
  | _ => exact .refl _

/-- A drain has the units of the gate until it has put them back. -/
theorem drains (h : GateDeed t old t' new marks) :
    (ticketsOf .drained marks ++ old.flatMap GateWork.drains).Perm
      (ticketsOf .refilled marks ++ new.flatMap GateWork.drains) := by
  cases h with
  | part ticket work hmem hwork => rcases hwork with rfl | ⟨handle, rfl⟩ <;> exact .refl _
  | tell handle outcome round c hc | nextRound handle round c hround hc =>
      rw [List.flatMap_append, flatMap_countDown fun _ => rfl]
      exact .refl _
  | _ => exact .refl _

end GateDeed

end EventReplay
