import Mathlib.Order.Bounds.Basic
import EventReplay.Proofs.GateRest

/-!
# The course of a gate

What can be seen of a gate, from first to last: whom it serves first (`GateSession.Told`), how many permits
were out at most (`GateSession.Peaked`), and that it loses and makes up no units (`gate_conserves`).
-/

set_option autoImplicit false

namespace EventReplay

variable {η : Type} [DecidableEq η] {s s' : GateSession η} {t t' : GateTable η}
  {old new : List (GateWork η)} {marks : List (GateMark η)}

open GateMark GateWork

/-! ## First come, first served -/

/-- What has come before a mark. -/
def GateMark.Follows (before : List (GateMark η)) : GateMark η → Prop
  | .became ticket .granted =>
    .closed ∉ before ∧ ∀ drain < ticket, .asked drain .drain ∈ before →
      .became drain .refilled ∈ before ∨ .became drain .cancelled ∈ before
  | .became _ .drained => (ticketsOf .granted before).Perm (ticketsOf .returned before)
  | _ => True

/-- What becomes of a drain. -/
theorem GateDeed.drain_gone (h : GateDeed t old t' new marks) (drain : Nat)
    (hdrain : (drain, .drain) ∈ old.flatMap awaits ∨ .asked drain .drain ∈ marks) :
    (drain, .drain) ∈ new.flatMap awaits ∨ .became drain .drained ∈ marks ∨
      .became drain .refused ∈ marks ∨ .became drain .cancelled ∈ marks := by
  cases h with
  | ask wish => simpa [awaits] using hdrain
  | cancel ticket wish =>
      obtain ⟨rfl, -⟩ : drain = ticket ∧ GateWish.drain = wish := by simpa [awaits] using hdrain
      simp
  | refuse ticket wish hclosed =>
      obtain ⟨rfl, -⟩ : drain = ticket ∧ GateWish.drain = wish := by simpa [awaits] using hdrain
      simp
  | grant ticket wish hwish hopen hready =>
      obtain ⟨rfl, rfl⟩ : drain = ticket ∧ GateWish.drain = wish := by simpa [awaits] using hdrain
      exact absurd rfl hwish
  | drain ticket hopen hready =>
      obtain rfl : drain = ticket := by simpa [awaits] using hdrain
      simp
  | _ => simp [awaits] at hdrain

/-- A call is refused only when the gate is closed. -/
theorem GateDeed.closed_of_refused (h : GateDeed t old t' new marks) {ticket : Nat}
    (hmark : .became ticket .refused ∈ marks) : t.gate.closed = true := by
  cases h with
  | refuse ticket' wish hclosed => exact hclosed
  | _ => simp at hmark

namespace GateSession

/-- What the marks tell of a gate: whether it is closed, and what has become of the drains; and each
permit was granted, and each drain had all units, in its turn. -/
structure Told (s : GateSession η) : Prop where
  closed : .closed ∈ s.marks ↔ s.table.gate.closed = true
  refused : ∀ ticket, .became ticket .refused ∈ s.marks → s.table.gate.closed = true
  drains : ∀ drain, .asked drain .drain ∈ s.marks → (drain, .drain) ∈ s.calls ∨
    .became drain .drained ∈ s.marks ∨ .became drain .refused ∈ s.marks ∨
    .became drain .cancelled ∈ s.marks
  follows : ∀ before mark after, s.marks = before ++ mark :: after → mark.Follows before

omit [DecidableEq η] in
theorem told_fresh (capacity : Nat) : (fresh capacity : GateSession η).Told :=
  ⟨by simp [fresh, Gate.ofCapacity], by simp [fresh], by simp [fresh], by simp [fresh]⟩

omit [DecidableEq η] in
/-- A call that can be answered has its units in the gate. -/
theorem Lined.needs_le (h : s.Lined) {ticket : Nat} {wish : GateWish η} (hcall : (ticket, wish) ∈ s.calls)
    (hopen : s.table.gate.closed = false) (hready : s.table.gate.isReady ticket = true) :
    wish.needs s.table.gate.capacity ≤ s.table.gate.units := by
  have htake := h.orderly.units_take h.inOrder.distinct hready (h.mem_requests hopen hcall)
  omega

omit [DecidableEq η] in
/-- A drain whose turn came before a permit was granted has put its units back or was given up. -/
theorem Told.follows_granted (h : s.Told) (hlined : s.Lined) (hbooked : s.Booked) {ticket : Nat}
    {wish : GateWish η} (hcall : (ticket, wish) ∈ s.calls) (hopen : s.table.gate.closed = false)
    (hready : s.table.gate.isReady ticket = true) :
    (.became ticket .granted : GateMark η).Follows s.marks := by
  have hpos := wish.needs_pos hlined.positive
  have hneeds := hlined.needs_le hcall hopen hready
  have hunits := hbooked.units_eq
  have hnotClosed : ¬ s.table.gate.closed = true := by simp [hopen]
  refine ⟨fun hclosed => hnotClosed (h.closed.mp hclosed), fun drain hlt hasked => ?_⟩
  rcases h.drains drain hasked with hwaits | hdrained | hrefused | hcancelled
  -- a drain that still waits stands before the call, and both have their units
  · have hboth := hlined.orderly.needs_le_units hlined.inOrder hready (hlined.mem_requests hopen hcall)
      (hlined.mem_requests hopen hwaits) hlt
    have hall : GateWish.needs s.table.gate.capacity (.drain : GateWish η) = s.table.gate.capacity := rfl
    omega
  -- a drain that has not put its units back has all of them
  · have hback := hbooked.drains.subset (mem_ticketsOf.mpr hdrained)
    rcases List.mem_append.mp hback with hback | hhas
    · exact .inl (mem_ticketsOf.mp hback)
    · have hall : s.table.gate.capacity ≤
          s.table.gate.capacity * (s.work.flatMap GateWork.drains).length :=
        Nat.le_mul_of_pos_right _ (List.length_pos_of_mem hhas)
      omega
  · exact absurd (h.refused drain hrefused) hnotClosed
  · exact .inr hcancelled

omit [DecidableEq η] in
/-- A drain that has all units leaves none for a permit. -/
theorem Booked.follows_drained (h : s.Booked) (hlined : s.Lined) {ticket : Nat}
    (hcall : (ticket, .drain) ∈ s.calls) (hopen : s.table.gate.closed = false)
    (hready : s.table.gate.isReady ticket = true) :
    (.became ticket .drained : GateMark η).Follows s.marks := by
  have hneeds : s.table.gate.capacity ≤ s.table.gate.units := hlined.needs_le hcall hopen hready
  have hunits := h.units_eq
  have hout : s.out = [] := List.length_eq_zero_iff.mp (by omega)
  have hpermits := h.permits
  rwa [hout, List.append_nil] at hpermits

/-- A deed leaves one mark at most, and the mark follows those before it. -/
theorem Told.follows_deed (h : s.Told) (hlined : s.Lined) (hbooked : s.Booked)
    (hdeed : GateDeed s.table old t' new marks) (hcalls : ∀ call ∈ old.flatMap awaits, call ∈ s.calls) :
    marks = [] ∨ ∃ mark, marks = [mark] ∧ mark.Follows s.marks := by
  cases hdeed with
  | ask wish => exact .inr ⟨_, rfl, trivial⟩
  | cancel ticket wish | refuse ticket wish hclosed => exact .inr ⟨_, rfl, trivial⟩
  | grant ticket wish hwish hopen hready =>
      have hcall : (ticket, wish) ∈ s.calls := hcalls _ (by simp [awaits])
      exact .inr ⟨_, rfl, h.follows_granted hlined hbooked hcall hopen hready⟩
  | drain ticket hopen hready =>
      have hcall : (ticket, .drain) ∈ s.calls := hcalls _ (by simp [awaits])
      exact .inr ⟨_, rfl, hbooked.follows_drained hlined hcall hopen hready⟩
  | putBack ticket | refill ticket | close => exact .inr ⟨_, rfl, trivial⟩
  | _ => exact .inl rfl

/-- Whatever happens, the marks tell of it. -/
theorem Told.does (h : s.Told) (hlined : s.Lined) (hbooked : s.Booked) (hdoes : s.Does s') :
    s'.Told := by
  obtain ⟨before, old, new, after, marks, hdeed, -, hwork, hwork', hmarks⟩ := hdoes
  have hcalls := calls_of_work hwork
  have hcalls' := calls_of_work hwork'
  have hfollows := h.follows_deed hlined hbooked hdeed fun call hcall => by simp [hcalls, hcall]
  refine ⟨?_, ?_, ?_, ?_⟩
  · rw [hmarks, List.mem_append, h.closed, hdeed.closed]
  · intro ticket hmark
    rw [hdeed.closed]
    rcases List.mem_append.mp (hmarks ▸ hmark) with hmark | hmark
    · exact .inl (h.refused ticket hmark)
    · exact .inl (hdeed.closed_of_refused hmark)
  · intro drain hasked
    -- a drain that the deed is about goes on as the deed says, and any other as it was
    have hgone := hdeed.drain_gone drain
    rcases List.mem_append.mp (hmarks ▸ hasked) with hasked | hasked
    · have hdrains := h.drains drain hasked
      simp only [hmarks, hcalls, hcalls', List.mem_append] at hdrains ⊢
      grind
    · have hdrains := hgone (.inr hasked)
      simp only [hmarks, hcalls', List.mem_append]
      grind
  · intro earlier mark later heq
    rcases hfollows with hnone | ⟨last, hlast, hfollows⟩
    · exact h.follows earlier mark later (by rw [← heq, hmarks, hnone, List.append_nil])
    · rw [hmarks, hlast] at heq
      rcases List.eq_nil_or_concat later with rfl | ⟨later, last', rfl⟩
      -- the mark that has just been left
      · obtain ⟨rfl, hsame⟩ := List.append_inj' heq rfl
        obtain rfl := List.singleton_inj.mp hsame
        exact hfollows
      · have hinit : s.marks ++ [last] = (earlier ++ mark :: later) ++ [last'] := by
          simpa using heq
        exact h.follows earlier mark later (List.append_inj' hinit rfl).1

theorem told_run (capacity : Nat) (schedule : List (GateAction η)) : (run capacity schedule).Told := by
  induction schedule using List.reverseRecOn with
  | nil => exact told_fresh capacity
  | append_singleton schedule action ih =>
      rw [run_concat]
      exact ih.does (lined_run capacity schedule) (booked_run capacity schedule) (does_act _ action)

end GateSession

/-! ## The peak -/

/-- The level that a thread is about to keep the peak at. -/
def GateWork.rises : GateWork η → List Nat
  | raisePeak _ level _ => [level]
  | _ => []

/-- How the count of permits moves the peak: the count goes down or stays, or it reaches a level that a
thread is to keep the peak at, or the thread does so. -/
inductive GateTable.PeakMoves (t t' : GateTable η) (old new : List (GateWork η)) : Prop
  | keeps (hpeak : t'.gate.peak = t.gate.peak) (hrises : new.flatMap rises = old.flatMap rises)
      (hcount : t'.gate.outstanding ≤ t.gate.outstanding)
  | reaches (hpeak : t'.gate.peak = t.gate.peak) (hold : old.flatMap rises = [])
      (hnew : new.flatMap rises = [t'.gate.outstanding])
  | rises (level : Nat) (hpeak : t'.gate.peak = max t.gate.peak level) (hold : old.flatMap rises = [level])
      (hnew : new.flatMap rises = []) (hcount : t'.gate.outstanding = t.gate.outstanding)

theorem GateDeed.peakMoves (h : GateDeed t old t' new marks) : t.PeakMoves t' old new := by
  cases h with
  | ask wish => exact .keeps (Gate.peak_ask ..) rfl (Gate.outstanding_ask ..).le
  | countUp ticket onto => exact .reaches rfl rfl rfl
  | handOut ticket level => exact .rises level rfl rfl rfl rfl
  | handOn ticket level handle => exact .rises level rfl rfl rfl rfl
  | countDown ticket => exact .keeps rfl rfl (Nat.sub_le ..)
  | part ticket work hmem hwork => rcases hwork with rfl | ⟨handle, rfl⟩ <;> exact .keeps rfl rfl le_rfl
  | tell handle outcome round c hc | nextRound handle round c hround hc =>
      refine .keeps rfl ?_ le_rfl
      simp [List.flatMap_map, rises]
  | _ => exact .keeps rfl rfl le_rfl

namespace GateSession

/-- The peak, and the levels that threads are about to keep it at. -/
def heights (s : GateSession η) : List Nat := s.table.gate.peak :: s.work.flatMap rises

/-- The levels that the count of permits has reached so far are those up to the peak, and up to the levels
that threads are about to keep it at. -/
structure Peaked (s : GateSession η) (levels : Set Nat) : Prop where
  now : s.table.gate.outstanding ∈ levels
  reached : ∀ height ∈ s.heights, height ∈ levels
  bound : ∀ level ∈ levels, ∃ height ∈ s.heights, level ≤ height

theorem Peaked.does {levels : Set Nat} (h : s.Peaked levels) (hdoes : s.Does s') :
    s'.Peaked (insert s'.table.gate.outstanding levels) := by
  obtain ⟨before, old, new, after, marks, hdeed, -, hwork, hwork', -⟩ := hdoes
  obtain ⟨hnow, hreached, hbound⟩ := h
  simp only [heights, hwork, List.flatMap_append] at hreached hbound
  -- what the count was has been reached before, and what it is has been reached now
  suffices hmoves : (∀ height ∈ s'.heights, height ∈ insert s'.table.gate.outstanding levels) ∧
      (∀ level ∈ levels, ∃ height ∈ s'.heights, level ≤ height) ∧
      ∃ height ∈ s'.heights, s'.table.gate.outstanding ≤ height by
    obtain ⟨hreached', hbound', hnow'⟩ := hmoves
    exact ⟨Set.mem_insert .., hreached', Set.forall_mem_insert.mpr ⟨hnow', hbound'⟩⟩
  simp only [heights, hwork', List.flatMap_append]
  cases hdeed.peakMoves with
  | keeps hpeak hrises hcount =>
      rw [hpeak, hrises]
      obtain ⟨height, hmem, hle⟩ := hbound _ hnow
      exact ⟨fun height hmem => .inr (hreached height hmem), hbound, height, hmem, hcount.trans hle⟩
  | reaches hpeak hold hnew =>
      rw [hpeak, hnew]
      rw [hold, List.append_nil] at hreached hbound
      simp only [List.mem_cons, List.mem_append, List.not_mem_nil, or_false, Set.mem_insert_iff]
        at hreached hbound ⊢
      refine ⟨fun height hmem => ?_, fun level hlevel => ?_, _, .inr (.inl (.inr rfl)), le_rfl⟩
      · have hold := hreached height
        tauto
      · obtain ⟨height, hmem, hle⟩ := hbound level hlevel
        exact ⟨height, by tauto, hle⟩
  | rises level hpeak hold hnew hcount =>
      rw [hpeak, hnew, hcount, List.append_nil]
      rw [hold] at hreached hbound
      simp only [List.mem_cons, List.mem_append, List.not_mem_nil, or_false, Set.mem_insert_iff]
        at hreached hbound ⊢
      -- the new peak is one of the heights, and stands for two of them
      have hcovers : ∀ level' ∈ levels, ∃ height,
          (height = max s.table.gate.peak level ∨ height ∈ before.flatMap GateWork.rises ∨
            height ∈ after.flatMap GateWork.rises) ∧ level' ≤ height := by
        intro level' hlevel'
        obtain ⟨height, rfl | (hmem | rfl) | hmem, hle⟩ := hbound level' hlevel'
        · exact ⟨_, .inl rfl, hle.trans (Nat.le_max_left ..)⟩
        · exact ⟨height, .inr (.inl hmem), hle⟩
        · exact ⟨_, .inl rfl, hle.trans (Nat.le_max_right ..)⟩
        · exact ⟨height, .inr (.inr hmem), hle⟩
      refine ⟨fun height hmem => .inr ?_, hcovers, hcovers _ hnow⟩
      rcases hmem with rfl | hmem | hmem
      · rcases Nat.le_total s.table.gate.peak level with hle | hle
        · rw [Nat.max_eq_right hle]
          exact hreached _ (.inr (.inl (.inr rfl)))
        · rw [Nat.max_eq_left hle]
          exact hreached _ (.inl rfl)
      · exact hreached height (.inr (.inl (.inl hmem)))
      · exact hreached height (.inr (.inr hmem))

/-- The counts of permits at some moment of a schedule. -/
def levels (capacity : Nat) (schedule : List (GateAction η)) : Set Nat :=
  {n | ∃ before, before <+: schedule ∧ (run capacity before).table.gate.outstanding = n}

theorem levels_concat (capacity : Nat) (schedule : List (GateAction η)) (action : GateAction η) :
    levels capacity (schedule ++ [action]) =
      insert ((run capacity schedule).act action).table.gate.outstanding (levels capacity schedule) := by
  ext n
  simp only [levels, Set.mem_ofPred_eq, Set.mem_insert_iff, List.prefix_concat_iff, or_and_right,
    exists_or, exists_eq_left, run_concat]
  exact or_congr_left eq_comm

theorem peaked_run (capacity : Nat) (schedule : List (GateAction η)) :
    (run capacity schedule).Peaked (levels capacity schedule) := by
  induction schedule using List.reverseRecOn with
  | nil =>
      have hlevels : levels capacity ([] : List (GateAction η)) = {0} := by
        ext n
        simp [levels, run, fresh, Gate.ofCapacity, eq_comm]
      rw [hlevels]
      refine ⟨rfl, ?_, ?_⟩ <;> simp [run, fresh, heights, work, Gate.ofCapacity]
  | append_singleton schedule action ih =>
      rw [run_concat, levels_concat]
      exact ih.does (does_act _ action)

omit [DecidableEq η] in
theorem Peaked.isGreatest {levels : Set Nat} (h : s.Peaked levels) (hrest : s.atRest = true) :
    IsGreatest levels s.table.gate.peak := by
  have hheights : s.heights = [s.table.gate.peak] := by
    rw [heights, flatMap_of_atRest hrest rises fun _ _ => rfl]
  refine ⟨h.reached _ (by simp [hheights]), fun level hlevel => ?_⟩
  obtain ⟨height, hmem, hle⟩ := h.bound level hlevel
  rw [hheights, List.mem_singleton] at hmem
  exact hmem ▸ hle

end GateSession

/-! ## The law of a gate -/

omit [DecidableEq η] in
/-- For each call in the line there is a thread that waits. -/
theorem GateSession.Lined.exists_call (h : s.Lined) {call : GateCall} (hcall : call ∈ s.table.gate.line) :
    ∃ wish, .call call.ticket wish ∈ s.work := by
  have hrequest := h.line.subset (List.mem_map_of_mem hcall)
  obtain ⟨⟨ticket, wish⟩, hmem, heq⟩ := List.mem_map.mp hrequest
  obtain ⟨work, hwork, hawaits⟩ := List.mem_flatMap.mp hmem
  obtain ⟨hticket, -⟩ := Prod.mk.inj heq
  cases work with
  | call ticket' wish' =>
      obtain ⟨rfl, rfl⟩ : ticket = ticket' ∧ wish = wish' := by simpa [awaits] using hawaits
      exact ⟨wish, hticket ▸ hwork⟩
  | _ => simp [awaits] at hawaits

open GateSession in
/-- A gate loses and makes up no units, and serves first who comes first. -/
theorem gate_conserves (capacity : Nat) (schedule : List (GateAction η)) :
    let s := run capacity schedule
    let gate := s.table.gate
    let units := min (max capacity 1) Gate.maxCapacity
    -- no more permits are counted than the gate has units
    (gate.capacity = units ∧ gate.outstanding ≤ units) ∧
    -- no call is granted two permits, and each permit has come back, once, or is out
    (ticketsOf .granted s.marks).Nodup ∧
    (ticketsOf .granted s.marks).Perm (ticketsOf .returned s.marks ++ s.out) ∧
    -- a permit that is dropped comes back, whatever else happens
    (∀ ticket ∈ s.table.permits, ∀ later,
      let s' := run capacity (schedule ++ .drop ticket :: later)
      s'.atRest → .became ticket .returned ∈ s'.marks) ∧
    -- each unit is free, or a permit's, or assigned to a call that a thread waits for, or a drain's
    (gate.free + s.out.length + (Gate.held gate.ready + Gate.held gate.waiting) +
        units * (s.work.flatMap drains).length = units ∧
      ∀ call ∈ gate.line, ∃ wish, .call call.ticket wish ∈ s.work) ∧
    -- between operations, the count is that of the permits that are out: those of tasks, and those that go
    -- back on completions that have not been told; the peak is the highest that the count has been; and no
    -- drain has units
    (s.atRest →
      gate.outstanding + (ticketsOf .returned s.marks).length = (ticketsOf .granted s.marks).length ∧
      s.out = s.table.permits ++ s.table.kept ∧
      (∀ handle outcome, .tell handle outcome ∈ schedule → (s.table.completion handle).kept = []) ∧
      IsGreatest (levels capacity schedule) gate.peak ∧
      gate.free + s.out.length + (Gate.held gate.ready + Gate.held gate.waiting) = units ∧
      (ticketsOf .drained s.marks).Perm (ticketsOf .refilled s.marks)) ∧
    -- all threads that can go on come to rest
    (∃ steps : List Nat, (run capacity (schedule ++ steps.map .step)).atRest) ∧
    -- a drain has all units only when every permit has come back, and none is out until it puts them back
    (∀ before ticket after, s.marks = before ++ .became ticket .drained :: after →
      (ticketsOf .granted before).Perm (ticketsOf .returned before)) ∧
    (∀ ticket, .refill ticket ∈ s.work → s.out = [] ∧ gate.outstanding = 0) ∧
    -- calls are numbered as they come, and none is granted a permit after the gate is closed, or before a
    -- drain that came earlier has put all units back or was given up
    askedOf s.marks = List.range s.table.nextTicket ∧
    ∀ before ticket after, s.marks = before ++ .became ticket .granted :: after →
      .closed ∉ before ∧ ∀ drain < ticket, .asked drain .drain ∈ before →
        .became drain .refilled ∈ before ∨ .became drain .cancelled ∈ before := by
  intro s gate units
  have hlined : s.Lined := lined_run capacity schedule
  have hbooked : s.Booked := booked_run capacity schedule
  have htold : s.Told := told_run capacity schedule
  have hcapacity : gate.capacity = units := capacity_run capacity schedule
  have hunits : gate.free + s.out.length + (Gate.held gate.ready + Gate.held gate.waiting) +
      units * (s.work.flatMap drains).length = units := by
    have hunits : gate.units + s.out.length + gate.capacity * (s.work.flatMap drains).length =
        gate.capacity := hbooked.units_eq
    rw [hcapacity, Gate.units] at hunits
    omega
  refine ⟨⟨hcapacity, hcapacity ▸ hbooked.outstanding_le⟩, hbooked.nodup_granted, hbooked.permits, ?_,
    ⟨hunits, fun call hcall => hlined.exists_call hcall⟩, fun hrest => ?_, exists_rest capacity schedule,
    fun before ticket after hmarks => htold.follows before _ after hmarks,
    fun ticket hdrain => hbooked.out_eq_nil hdrain, hbooked.asked,
    fun before ticket after hmarks => htold.follows before _ after hmarks⟩
  · intro ticket hticket later s' hrest
    have hgoes : (run capacity (schedule ++ [.drop ticket])).GoesBack ticket := by
      rw [run_concat]
      exact goesBack_drop hticket
    have hgoes' := run_keeps (P := (GoesBack · ticket)) (fun s action h => h.does (does_act s action)) hgoes
      later
    rw [List.append_assoc, List.singleton_append] at hgoes'
    exact hgoes'.of_atRest hrest
  · have hheld := flatMap_of_atRest hrest holds fun _ _ => rfl
    have huncounted := flatMap_of_atRest hrest uncounted fun _ _ => rfl
    have hdrains := flatMap_of_atRest hrest drains fun _ _ => rfl
    refine ⟨?_, ?_, ?_, ?_, ?_, ?_⟩
    · have hcounted := hbooked.counted
      rw [huncounted] at hcounted
      rw [hbooked.permits.length_eq, List.length_append, ← hcounted]
      exact Nat.add_comm ..
    · rw [GateSession.out, hheld, GateTable.out, List.append_nil]
    · exact fun handle outcome => (settled_run capacity schedule).kept_eq_nil hrest
    · exact (peaked_run capacity schedule).isGreatest hrest
    · rwa [hdrains] at hunits
    · have hperm := hbooked.drains
      rwa [hdrains, List.append_nil] at hperm

end EventReplay
