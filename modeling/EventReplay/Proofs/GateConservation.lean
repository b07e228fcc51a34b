import Mathlib.Data.List.Induction
import EventReplay.Proofs.GateBooks

/-!
# What a gate keeps

However the threads at a gate take turns, the line of the gate is that of the calls that threads wait
for, in the order in which they came (`GateSession.Lined`), and the books of the gate balance
(`GateSession.Booked`). So the units that are free, those assigned to calls, those of the permits that
are out and those of drains make up the capacity (`GateSession.Booked.units_eq`).
-/

set_option autoImplicit false

namespace EventReplay

variable {η : Type}

/-! ## What a deed does to the gate -/

theorem Gate.closed_ask (gate : Gate) (ticket needs : Nat) :
    (gate.ask ticket needs).closed = gate.closed := by
  unfold Gate.ask
  split
  · rfl
  · split <;> rfl

theorem GateWish.needs_pos {capacity : Nat} (h : 0 < capacity) (wish : GateWish η) :
    0 < wish.needs capacity := by
  cases wish
  · exact Nat.one_pos
  · exact Nat.one_pos
  · exact h

namespace GateDeed

open GateMark GateWork

variable [DecidableEq η] {t t' : GateTable η} {old new : List (GateWork η)}
  {marks : List (GateMark η)}

theorem capacity (h : GateDeed t old t' new marks) : t'.gate.capacity = t.gate.capacity := by
  cases h with
  | ask wish => exact Gate.capacity_ask ..
  | _ => rfl

theorem closed (h : GateDeed t old t' new marks) :
    t'.gate.closed = true ↔ t.gate.closed = true ∨ .closed ∈ marks := by
  cases h with
  | ask wish => simp [Gate.closed_ask]
  | close => simp [Gate.close]
  | _ => simp [Gate.withdraw, Gate.putBack, Gate.take, Gate.countUp, Gate.countDown, Gate.raisePeak,
      GateTable.setCompletion]

theorem orderly (h : GateDeed t old t' new marks) (hgate : t.gate.Orderly) : t'.gate.Orderly := by
  cases h with
  | ask wish => exact hgate.ask ..
  | cancel ticket wish | refuse ticket wish hclosed => exact hgate.withdraw ticket
  | grant ticket wish hwish hopen hready => exact hgate.take ticket
  | drain ticket hopen hready => exact hgate.take ticket
  | putBack ticket => exact hgate.putBack 1
  | refill ticket => exact hgate.putBack t.gate.capacity
  | _ => exact ⟨hgate.full, hgate.lacking, hgate.busy⟩

/-- Calls are numbered in the order in which they come. -/
theorem asked (h : GateDeed t old t' new marks) :
    List.range t.nextTicket ++ askedOf marks = List.range t'.nextTicket := by
  cases h with
  | ask wish => exact List.range_succ.symm
  | _ => exact List.append_nil _

/-- Units leave the gate with a call that is granted or drains it, and come back with what is returned
or refilled. -/
theorem units (h : GateDeed t old t' new marks) (hgate : t.gate.Orderly) (horder : t.gate.InOrder)
    (hcalls : t.gate.closed = false → ∀ call ∈ old.flatMap awaits,
      (call.1, call.2.needs t.gate.capacity) ∈ t.gate.requests) :
    t'.gate.units + (ticketsOf .granted marks).length +
        t.gate.capacity * (ticketsOf .drained marks).length =
      t.gate.units + (ticketsOf .returned marks).length +
        t.gate.capacity * (ticketsOf .refilled marks).length := by
  cases h with
  | ask wish => simp [Gate.units_ask]
  | cancel ticket wish | refuse ticket wish hclosed => simp [hgate.units_withdraw]
  | grant ticket wish hwish hopen hready =>
      have htake := hgate.units_take horder.distinct hready (hcalls hopen (ticket, wish) (by simp [awaits]))
      have hneeds : wish.needs t.gate.capacity = 1 := by
        cases wish with
        | drain => exact absurd rfl hwish
        | _ => rfl
      simp [← hneeds, htake]
  | drain ticket hopen hready =>
      have htake := hgate.units_take horder.distinct hready (hcalls hopen (ticket, .drain) (by simp [awaits]))
      simp [← htake, GateWish.needs]
  | putBack ticket => simp [hgate.units_putBack]
  | refill ticket => simp [hgate.units_putBack]
  | _ => rfl

end GateDeed

/-! ## The line -/

open GateWork in
/-- How the line of a gate moves with the calls that threads wait for: nothing moves, a call joins it at
its end, or a call leaves it. -/
inductive GateTable.LineMoves (t t' : GateTable η) : List (GateWork η) → List (GateWork η) → Prop
  | same {old new : List (GateWork η)} (hcalls : new.flatMap awaits = old.flatMap awaits)
      (hline : t'.gate.requests = t.gate.requests) (hnext : t'.nextTicket = t.nextTicket) :
      LineMoves t t' old new
  | joins (wish : GateWish η)
      (hline : t'.gate.requests = if t.gate.closed then t.gate.requests else
        t.gate.requests ++ [(t.nextTicket, wish.needs t.gate.capacity)])
      (hnext : t'.nextTicket = t.nextTicket + 1) : LineMoves t t' [] [.call t.nextTicket wish]
  | leaves {old new : List (GateWork η)} (ticket : Nat) (wish : GateWish η)
      (hold : old.flatMap awaits = [(ticket, wish)]) (hnew : new.flatMap awaits = [])
      (hline : t'.gate.requests = t.gate.requests.filter fun request => request.1 ≠ ticket)
      (hnext : t'.nextTicket = t.nextTicket) : LineMoves t t' old new

open GateWork in
theorem GateDeed.lineMoves [DecidableEq η] {t t' : GateTable η} {old new : List (GateWork η)}
    {marks : List (GateMark η)} (h : GateDeed t old t' new marks) (hgate : t.gate.Orderly)
    (horder : t.gate.InOrder) (hpos : 0 < t.gate.capacity) : t.LineMoves t' old new := by
  cases h with
  | ask wish =>
      refine .joins wish ?_ rfl
      show (t.gate.ask _ _).requests = _
      cases hclosed : t.gate.closed with
      | true => simp [Gate.ask, hclosed]
      | false => exact hgate.requests_ask hclosed _ (wish.needs_pos hpos)
  | cancel ticket wish | refuse ticket wish hclosed =>
      exact .leaves ticket wish rfl rfl (hgate.requests_withdraw ticket) rfl
  | grant ticket wish hwish hopen hready =>
      exact .leaves ticket wish rfl rfl (horder.distinct.requests_take hready) rfl
  | drain ticket hopen hready =>
      exact .leaves ticket .drain rfl rfl (horder.distinct.requests_take hready) rfl
  | part ticket work hmem hwork => rcases hwork with rfl | ⟨handle, rfl⟩ <;> exact .same rfl rfl rfl
  | tell handle outcome round c hc | nextRound handle round c hround hc =>
      refine .same ?_ rfl rfl
      rw [List.flatMap_append, flatMap_countDown fun _ => rfl]
      rfl
  | putBack ticket => exact .same rfl (hgate.requests_putBack 1) rfl
  | refill ticket => exact .same rfl (hgate.requests_putBack t.gate.capacity) rfl
  | _ => exact .same rfl rfl rfl

variable [DecidableEq η] {s s' : GateSession η} {capacity : Nat}

namespace GateSession

open GateMark GateWork

omit [DecidableEq η]

/-- The calls that threads wait for, first come first. -/
def calls (s : GateSession η) : List (Nat × GateWish η) := s.work.flatMap awaits

/-- The calls of all threads are those of the one that has something to do, and those of the others. -/
theorem calls_of_work {before old after : List (GateWork η)} (h : s.work = before ++ old ++ after) :
    s.calls = before.flatMap awaits ++ old.flatMap awaits ++ after.flatMap awaits := by
  rw [calls, h, List.flatMap_append, List.flatMap_append]

/-- What these calls ask for. -/
def requests (s : GateSession η) : List (Nat × Nat) :=
  s.calls.map fun call => (call.1, call.2.needs s.table.gate.capacity)

/-- The line of a gate is that of the calls that threads wait for, in the order in which they came; when
the gate is closed, further calls do not join it. -/
structure Lined (s : GateSession η) : Prop where
  positive : 0 < s.table.gate.capacity
  orderly : s.table.gate.Orderly
  sorted : (s.calls.map Prod.fst).Pairwise (· < ·)
  fresh : ∀ call ∈ s.calls, call.1 < s.table.nextTicket
  line : s.table.gate.requests.Sublist s.requests
  whileOpen : s.table.gate.closed = false → s.table.gate.requests = s.requests

theorem map_fst_requests (s : GateSession η) : s.requests.map Prod.fst = s.calls.map Prod.fst := by
  simp [requests]

theorem Lined.inOrder (h : s.Lined) : s.table.gate.InOrder :=
  (map_fst_requests s ▸ h.sorted).sublist (h.line.map _)

/-- While a gate is open, what a thread waits for is in its line. -/
theorem Lined.mem_requests (h : s.Lined) (hopen : s.table.gate.closed = false) {ticket : Nat}
    {wish : GateWish η} (hcall : (ticket, wish) ∈ s.calls) :
    (ticket, wish.needs s.table.gate.capacity) ∈ s.table.gate.requests := by
  rw [h.whileOpen hopen]
  exact List.mem_map.mpr ⟨(ticket, wish), hcall, rfl⟩

theorem lined_fresh (capacity : Nat) : (fresh capacity : GateSession η).Lined := by
  refine ⟨?_, Gate.orderly_ofCapacity capacity, .nil, by simp [calls, work, fresh], ?_, fun _ => rfl⟩
  · simp only [fresh, Gate.ofCapacity, Gate.maxCapacity]
    omega
  · exact List.nil_sublist _

/-- Without the call that leaves, the others keep their places. -/
theorem filter_awaits {before after : List (Nat × GateWish η)} {ticket : Nat} {wish : GateWish η}
    (h : ((before ++ [(ticket, wish)] ++ after).map Prod.fst).Pairwise (· < ·)) :
    (before ++ [(ticket, wish)] ++ after).filter (fun call => call.1 ≠ ticket) = before ++ after := by
  rw [List.append_assoc, List.singleton_append] at h ⊢
  have hnodup : ((before ++ (ticket, wish) :: after).map Prod.fst).Nodup := h.imp Nat.ne_of_lt
  rw [List.map_append, List.map_cons, List.nodup_middle, List.nodup_cons, ← List.map_append] at hnodup
  have hothers : ∀ call ∈ before ++ after, call.1 ≠ ticket := by
    intro call hcall heq
    exact hnodup.1 (List.mem_map.mpr ⟨call, hcall, heq⟩)
  rw [List.filter_append, List.filter_cons_of_neg (by simp), ← List.filter_append, List.filter_eq_self]
  intro call hcall
  simpa using hothers call hcall

end GateSession

open GateWork in
/-- Whatever happens, the calls keep their places. -/
theorem GateSession.Lined.does (h : s.Lined) (hdoes : s.Does s') : s'.Lined := by
  obtain ⟨before, old, new, after, marks, hdeed, hbehind, hwork, hwork', -⟩ := hdoes
  have hcapacity := hdeed.capacity
  have hopen : s'.table.gate.closed = false → s.table.gate.closed = false := by
    intro hopen'
    by_contra hclosed
    have hclosed' := hdeed.closed.mpr (.inl (by simpa using hclosed))
    simp [hopen'] at hclosed'
  have horderly := hdeed.orderly h.orderly
  have hsame := calls_of_work hwork
  have hsame' := calls_of_work hwork'
  have hpositive := hcapacity ▸ h.positive
  cases hdeed.lineMoves h.orderly h.inOrder h.positive with
  | same hcalls hline hnext =>
      have hsame : s'.calls = s.calls := by rw [hsame, hsame', hcalls]
      have hrequests : s'.requests = s.requests := by rw [requests, requests, hsame, hcapacity]
      refine ⟨hpositive, horderly, hsame ▸ h.sorted, ?_, ?_, fun hopen' => ?_⟩
      · rw [hsame, hnext]
        exact h.fresh
      · rw [hline, hrequests]
        exact h.line
      · rw [hline, hrequests]
        exact h.whileOpen (hopen hopen')
  | joins wish hline hnext =>
      obtain rfl := hbehind rfl
      have hcalls : s'.calls = s.calls ++ [(s.table.nextTicket, wish)] := by
        simp [hsame, hsame', awaits]
      have hrequests : s'.requests = s.requests ++ [(s.table.nextTicket,
          wish.needs s.table.gate.capacity)] := by
        rw [requests, requests, hcalls, hcapacity, List.map_append]
        rfl
      refine ⟨hpositive, horderly, ?_, ?_, ?_, fun hopen' => ?_⟩
      · rw [hcalls, List.map_append, List.pairwise_append]
        refine ⟨h.sorted, List.pairwise_singleton .., ?_⟩
        simpa using fun ticket wish' hcall => h.fresh (ticket, wish') hcall
      · rw [hcalls, hnext, List.forall_mem_append]
        refine ⟨fun call hcall => Nat.lt_succ_of_lt (h.fresh call hcall), ?_⟩
        simp
      · rw [hline, hrequests]
        split
        · exact h.line.trans (List.sublist_append_left ..)
        · exact h.line.append (.refl _)
      · rw [hline, hrequests, h.whileOpen (hopen hopen'), if_neg (by simp [hopen hopen'])]
  | leaves ticket wish hold hnew hline hnext =>
      have hcalls : s'.calls = s.calls.filter fun call => call.1 ≠ ticket := by
        have hsorted := h.sorted
        rw [hsame, hold] at hsorted ⊢
        rw [filter_awaits hsorted, hsame', hnew, List.append_nil]
      have hrequests : s'.requests = s.requests.filter fun request => request.1 ≠ ticket := by
        rw [requests, requests, hcalls, hcapacity, List.filter_map]
        rfl
      refine ⟨hpositive, horderly, ?_, ?_, ?_, fun hopen' => ?_⟩
      · rw [hcalls]
        exact h.sorted.sublist (List.filter_sublist.map _)
      · rw [hcalls, hnext]
        exact fun call hcall => h.fresh call (List.mem_filter.mp hcall).1
      · rw [hline, hrequests]
        exact h.line.filter _
      · rw [hline, hrequests, h.whileOpen (hopen hopen')]

/-! ## The books -/

namespace GateSession

open GateMark GateWork

omit [DecidableEq η]

/-- The permits that are out. -/
def out (s : GateSession η) : List Nat := s.table.out (s.work.flatMap holds)

/-- The books of a gate: each call is answered or given up once, each permit that is granted is out until
it is returned, each drain has all units until they are back, and no unit is lost or made up. -/
structure Booked (s : GateSession η) : Prop where
  keyed : s.table.Keyed
  asked : askedOf s.marks = List.range s.table.nextTicket
  calls : (askedOf s.marks).Perm (answeredOf s.marks ++ s.calls.map Prod.fst)
  permits : (ticketsOf .granted s.marks).Perm (ticketsOf .returned s.marks ++ s.out)
  drains : (ticketsOf .drained s.marks).Perm (ticketsOf .refilled s.marks ++ s.work.flatMap drains)
  counted : s.table.gate.outstanding + (s.work.flatMap uncounted).length = s.out.length
  conserved : s.table.gate.units + (ticketsOf .granted s.marks).length +
      s.table.gate.capacity * (ticketsOf .drained s.marks).length =
    s.table.gate.capacity + (ticketsOf .returned s.marks).length +
      s.table.gate.capacity * (ticketsOf .refilled s.marks).length

theorem booked_fresh (capacity : Nat) : (fresh capacity : GateSession η).Booked := by
  refine ⟨.nil, rfl, .nil, .nil, .nil, rfl, ?_⟩
  simp [fresh, Gate.units, Gate.ofCapacity, Gate.held]

/-- Threads hold every permit that they hold and that is not counted. -/
theorem length_uncounted_le (work : List (GateWork η)) :
    (work.flatMap uncounted).length ≤ (work.flatMap holds).length := by
  induction work with
  | nil => exact Nat.le_refl _
  | cons first work ih =>
      have hfirst : first.uncounted.length ≤ first.holds.length := by
        cases first <;> simp [uncounted, holds]
      simp only [List.flatMap_cons, List.length_append]
      omega

/-- A permit that is about to be counted no longer is counted. -/
theorem Booked.outstanding_pos (h : s.Booked) {ticket : Nat} (hmem : .countDown ticket ∈ s.work) :
    0 < s.table.gate.outstanding := by
  obtain ⟨before, after, hwork⟩ := List.append_of_mem hmem
  have hbefore := length_uncounted_le before
  have hafter := length_uncounted_le after
  have hcounted := h.counted
  simp only [out, GateTable.out, hwork, List.flatMap_append, List.flatMap_cons, List.length_append,
    uncounted, holds, List.length_cons, List.length_nil] at hcounted
  omega

end GateSession

open GateMark GateWork in
/-- Whatever happens, it is entered in the books. -/
theorem GateSession.Booked.does (h : s.Booked) (hlined : s.Lined) (hdoes : s.Does s') : s'.Booked := by
  obtain ⟨before, old, new, after, marks, hdeed, -, hwork, hwork', hmarks⟩ := hdoes
  have hout := hdeed.out h.keyed
  have hcounted := hdeed.counted fun ticket hmem => by
    have hwork : .countDown ticket ∈ s.work := by simp [hwork, hmem]
    exact h.outstanding_pos hwork
  have hunits := hdeed.units hlined.orderly hlined.inOrder fun hopen call hcall => by
    refine hlined.mem_requests hopen ?_
    rw [calls_of_work hwork]
    exact List.mem_append_left _ (List.mem_append_right _ hcall)
  refine ⟨hdeed.keyed h.keyed, ?_, ?_, ?_, ?_, ?_, ?_⟩
  · rw [hmarks, askedOf_append, h.asked, hdeed.asked]
  · have hcalls := h.calls
    rw [calls_of_work hwork, List.map_append, List.map_append] at hcalls
    rw [hmarks, askedOf_append, calls_of_work hwork', List.map_append, List.map_append]
    exact (perm_step hcalls hdeed.calls).trans ((answeredOf_append ..).symm.append_right _)
  · have hpermits := h.permits
    rw [GateSession.out, hwork, List.flatMap_append, List.flatMap_append] at hpermits
    rw [hmarks, ticketsOf_append, ticketsOf_append, GateSession.out, hwork', List.flatMap_append,
      List.flatMap_append]
    have hstep := perm_step (hpermits.trans ((s.table.out_append ..).append_left _)) hout
    exact hstep.trans ((s'.table.out_append ..).symm.append_left _)
  · have hdrains := h.drains
    rw [hwork, List.flatMap_append, List.flatMap_append] at hdrains
    rw [hmarks, ticketsOf_append, ticketsOf_append, hwork', List.flatMap_append, List.flatMap_append]
    exact perm_step hdrains hdeed.drains
  · have hlength := hout.length_eq
    have hcounted' := h.counted
    simp only [GateSession.out, GateTable.out, hwork, hwork', List.flatMap_append, List.length_append]
      at hlength hcounted' ⊢
    omega
  · have hconserved := h.conserved
    simp only [hmarks, ticketsOf_append, List.length_append, hdeed.capacity, Nat.mul_add]
      at hconserved ⊢
    omega

/-! ## Every schedule -/

namespace GateSession

/-- What each action keeps is kept however a schedule goes on. -/
theorem run_keeps {P : GateSession η → Prop} (hact : ∀ s action, P s → P (s.act action)) {capacity : Nat}
    {before : List (GateAction η)} (h : P (run capacity before)) (later : List (GateAction η)) :
    P (run capacity (before ++ later)) := by
  induction later using List.reverseRecOn with
  | nil => rwa [List.append_nil]
  | append_singleton later action ih =>
      rw [← List.append_assoc, run_concat]
      exact hact _ action ih

theorem lined_run (capacity : Nat) (schedule : List (GateAction η)) :
    (run capacity schedule).Lined := by
  have hfresh : (run capacity ([] : List (GateAction η))).Lined := lined_fresh capacity
  exact run_keeps (fun s action h => h.does (does_act s action)) hfresh schedule

theorem booked_run (capacity : Nat) (schedule : List (GateAction η)) :
    (run capacity schedule).Booked := by
  induction schedule using List.reverseRecOn with
  | nil => exact booked_fresh capacity
  | append_singleton schedule action ih =>
      rw [run_concat]
      exact ih.does (lined_run capacity schedule) (does_act _ action)

theorem capacity_run (capacity : Nat) (schedule : List (GateAction η)) :
    (run capacity schedule).table.gate.capacity = min (max capacity 1) Gate.maxCapacity := by
  induction schedule using List.reverseRecOn with
  | nil => rfl
  | append_singleton schedule action ih =>
      rw [run_concat]
      obtain ⟨_, _, _, _, _, hdeed, -⟩ := does_act (run capacity schedule) action
      exact hdeed.capacity.trans ih

end GateSession

namespace GateSession.Booked

open GateMark GateWork

omit [DecidableEq η]

/-- The units in the gate, those of the permits that are out, and those of drains that have not put them
back make up the capacity. -/
theorem units_eq (h : s.Booked) :
    s.table.gate.units + s.out.length +
      s.table.gate.capacity * (s.work.flatMap GateWork.drains).length = s.table.gate.capacity := by
  have hconserved := h.conserved
  rw [h.permits.length_eq, h.drains.length_eq] at hconserved
  simp only [List.length_append, Nat.mul_add] at hconserved
  omega

theorem outstanding_le (h : s.Booked) : s.table.gate.outstanding ≤ s.table.gate.capacity := by
  have hunits := h.units_eq
  have hcounted := h.counted
  omega

/-- Each call is granted a permit at most once. -/
theorem nodup_granted (h : s.Booked) : (ticketsOf .granted s.marks).Nodup := by
  have hcalls := h.calls
  rw [h.asked] at hcalls
  have hnodup := hcalls.nodup_iff.mp List.nodup_range
  simp only [answeredOf, List.append_assoc] at hnodup
  exact (List.nodup_append.mp hnodup).1

/-- While a drain has the units of the gate, no permit is out. -/
theorem out_eq_nil (h : s.Booked) {ticket : Nat} (hdrain : .refill ticket ∈ s.work) :
    s.out = [] ∧ s.table.gate.outstanding = 0 := by
  have hunits := h.units_eq
  have hcounted := h.counted
  have hmem : ticket ∈ s.work.flatMap GateWork.drains :=
    List.mem_flatMap.mpr ⟨_, hdrain, List.mem_singleton_self ticket⟩
  have hpos : 0 < (s.work.flatMap GateWork.drains).length := List.length_pos_of_mem hmem
  have hall : s.table.gate.capacity ≤
      s.table.gate.capacity * (s.work.flatMap GateWork.drains).length := Nat.le_mul_of_pos_right _ hpos
  have hnone : s.out.length = 0 := by omega
  exact ⟨List.length_eq_zero_iff.mp hnone, by omega⟩

end GateSession.Booked

end EventReplay
