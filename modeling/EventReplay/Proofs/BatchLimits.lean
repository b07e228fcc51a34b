import Mathlib.Data.List.DropRight
import EventReplay.Proofs.BatchConservation

/-!
# How many documents wait, and for how long

A batch is to hold fewer documents than its size, and none for as long as its age. Both bounds hold as
long as the endpoint takes what it is given. Every refusal lets one more document wait
(`Batch.Bounded`). The age is counted from the last hand-over, and every document that waits was
brought after it (`Batch.Waits`), so where the clock never goes back no document waits too long
(`BatchSession.bounds_waiting`).
-/

set_option autoImplicit false

namespace EventReplay

/-! ## Refusals in a row -/

/-- The endpoint refused the documents. -/
def BulkCall.refused (call : BulkCall) : Bool := !call.answer.isOk

/-- How many of the last calls were refused, with none taken among them. -/
def refusedInARow (calls : List BulkCall) : Nat := (calls.rtakeWhile BulkCall.refused).length

theorem refusedInARow_taken (calls : List BulkCall) (documents : List Document) :
    refusedInARow (calls ++ [⟨documents, .ok ()⟩]) = 0 := by
  have htaken : ¬ BulkCall.refused ⟨documents, .ok ()⟩ = true := Bool.false_ne_true
  rw [refusedInARow, List.rtakeWhile_concat_neg _ _ _ htaken]
  rfl

theorem refusedInARow_refused (calls : List BulkCall) (documents : List Document)
    (fault : BulkFault) :
    refusedInARow (calls ++ [⟨documents, .error fault⟩]) = refusedInARow calls + 1 := by
  have hrefused : BulkCall.refused ⟨documents, .error fault⟩ = true := rfl
  rw [refusedInARow, List.rtakeWhile_concat_pos _ _ _ hrefused, List.length_append]
  rfl

/-! ## Invocations and their times -/

/-- A document and the time when it was brought. -/
structure Invocation where
  document : Document
  time : Int
deriving DecidableEq, Repr

namespace BatchAction

/-- What an action brings when the clock shows a time. -/
def invocations (index docType : String) (clock : Int) : BatchAction → List Invocation
  | .invoke source => [⟨⟨index, docType, source⟩, clock⟩]
  | _ => []

/-- What the clock shows after an action. -/
def after (clock : Int) : BatchAction → Int
  | .clock now => now
  | _ => clock

end BatchAction

/-- What actions bring and when, in order. -/
def invocations (index docType : String) : Int → List BatchAction → List Invocation
  | _, [] => []
  | clock, action :: actions =>
    action.invocations index docType clock ++ invocations index docType (action.after clock) actions

/-- No action sets the clock back. -/
def NeverBack : Int → List BatchAction → Prop
  | _, [] => True
  | clock, action :: actions => clock ≤ action.after clock ∧ NeverBack (action.after clock) actions

instance decidableNeverBack : ∀ (clock : Int) (actions : List BatchAction),
    Decidable (NeverBack clock actions)
  | _, [] => .isTrue trivial
  | clock, action :: actions =>
    @instDecidableAnd _ _ _ (decidableNeverBack (action.after clock) actions)

theorem NeverBack.concat_invoke {clock : Int} {actions : List BatchAction}
    (h : NeverBack clock actions) (source : String) :
    NeverBack clock (actions ++ [.invoke source]) := by
  induction actions generalizing clock with
  | nil => exact ⟨Int.le_refl _, trivial⟩
  | cons action actions ih => exact ⟨h.1, ih h.2⟩

variable {ω : Type} [BulkEndpoint ω]

namespace Batch

variable {batch : Batch (Logged ω)} {now : Int}

/-! ## What a flush keeps, a checkpoint keeps -/

theorem flush_keeps (kept : Batch (Logged ω) → Prop)
    (h : ∀ {result made batch'}, Flushes batch now result made batch' → kept batch') :
    kept (batch.flush now).2 := by
  obtain ⟨made, hflushes⟩ := batch.flush_flushes now
  exact h hflushes

theorem flushUntilEmpty_keeps {kept : Batch (Logged ω) → Prop}
    (hflush : ∀ batch, kept batch → kept (batch.flush now).2) (h : kept batch)
    (attempts tried : Nat) : kept (flushUntilEmpty now attempts tried batch).1 := by
  induction attempts generalizing batch tried with
  | zero => exact h
  | succ attempts ih =>
      by_cases hnone : batch.documents = []
      · rwa [flushUntilEmpty_of_none now hnone]
      · rw [flushUntilEmpty_succ now hnone]
        apply ih
        exact hflush batch h

/-- The limits and the names of a batch. -/
def HasLimits (batch : Batch (Logged ω)) (index docType : String) (size maxAge : Nat) : Prop :=
  batch.index = index ∧ batch.docType = docType ∧ batch.size = size ∧ batch.maxAge = maxAge

variable {index docType : String} {size maxAge : Nat}

theorem HasLimits.flush (h : batch.HasLimits index docType size maxAge) :
    (batch.flush now).2.HasLimits index docType size maxAge := by
  refine flush_keeps (HasLimits · index docType size maxAge) fun hflushes => ?_
  cases hflushes with
  | nothing hnone => exact h
  | taken hsome hwrite => exact h
  | refused hsome hwrite => exact h

/-! ## How many wait -/

/-- A batch keeps fewer documents than its size, but for one more with every refusal. Where nothing
waits the last call was taken, so a flush that finds nothing to hand over ends no row of refusals. -/
structure Bounded (batch : Batch (Logged ω)) : Prop where
  positive : 1 ≤ batch.size
  few : batch.documents.length ≤ batch.size - 1 + refusedInARow batch.calls
  calm : batch.documents = [] → refusedInARow batch.calls = 0

theorem Bounded.flush (h : batch.Bounded) : (batch.flush now).2.Bounded := by
  refine flush_keeps Bounded fun hflushes => ?_
  cases hflushes with
  | nothing hnone => exact ⟨h.positive, h.few, h.calm⟩
  | taken hsome hwrite =>
      exact ⟨h.positive, Nat.zero_le _, fun _ => refusedInARow_taken ..⟩
  | @refused endpoint fault hsome hwrite =>
      refine ⟨h.positive, ?_, fun hnone => absurd hnone hsome⟩
      have hfew := h.few
      have hmore := refusedInARow_refused batch.calls batch.documents fault
      show batch.documents.length ≤
        batch.size - 1 + refusedInARow (batch.calls ++ [⟨batch.documents, .error fault⟩])
      omega

theorem Bounded.invoke (h : batch.Bounded) (source : String) :
    (batch.invoke now source).1.Bounded := by
  have hpositive := h.positive
  have hfew := h.few
  have hlength : (batch.add source).documents.length = batch.documents.length + 1 := by simp [add]
  have hsome : (batch.add source).documents ≠ [] := by simp [add]
  rw [invoke_eq]
  by_cases hdue : (batch.add source).IsDue now
  · rw [if_pos hdue]
    refine flush_keeps Bounded fun hflushes => ?_
    cases hflushes with
    | nothing hnone => exact absurd hnone hsome
    | taken hsome hwrite =>
        exact ⟨hpositive, Nat.zero_le _, fun _ => refusedInARow_taken ..⟩
    | @refused endpoint fault hsome hwrite =>
        -- The document that is one too many was brought to a batch that was then refused.
        refine ⟨hpositive, ?_, fun hnone => absurd hnone hsome⟩
        have hmore := refusedInARow_refused batch.calls (batch.add source).documents fault
        show (batch.add source).documents.length ≤ batch.size - 1 +
          refusedInARow (batch.calls ++ [⟨(batch.add source).documents, .error fault⟩])
        omega
  · rw [if_neg hdue]
    refine ⟨hpositive, ?_, fun hnone => absurd hnone hsome⟩
    have hroom : ¬ (batch.add source).size ≤ (batch.add source).documents.length :=
      fun hfull => hdue (.inl hfull)
    have hsize : (batch.add source).size = batch.size := rfl
    omega

/-! ## How long they wait -/

/-- The documents that wait are the last ones that were brought, and were brought after the last
hand-over. -/
structure Waits (batch : Batch (Logged ω)) (clock : Int) (before : List Invocation) : Prop where
  past : batch.lastFlush ≤ clock
  recent : ∃ waiting, waiting <:+ before ∧ waiting.map Invocation.document = batch.documents ∧
    ∀ invocation ∈ waiting, batch.lastFlush ≤ invocation.time

variable {clock : Int} {before : List Invocation}

theorem Waits.flush (h : batch.Waits clock before) :
    (batch.flush clock).2.Waits clock before := by
  refine flush_keeps (Waits · clock before) fun hflushes => ?_
  cases hflushes with
  | nothing hnone =>
      refine ⟨Int.le_refl _, [], List.nil_suffix, ?_, by simp⟩
      simp [hnone]
  | taken hsome hwrite => exact ⟨Int.le_refl _, [], List.nil_suffix, rfl, by simp⟩
  | refused hsome hwrite => exact ⟨h.past, h.recent⟩

omit [BulkEndpoint ω] in
theorem Waits.add (h : batch.Waits clock before) (source : String) :
    (batch.add source).Waits clock (before ++ [⟨batch.document source, clock⟩]) := by
  obtain ⟨waiting, hsuffix, hdocuments, htimes⟩ := h.recent
  refine ⟨h.past, waiting ++ [⟨batch.document source, clock⟩], ?_, ?_, ?_⟩
  · obtain ⟨gone, rfl⟩ := hsuffix
    exact ⟨gone, by simp⟩
  · rw [List.map_append, hdocuments]
    rfl
  · intro invocation hmem
    rcases List.mem_append.mp hmem with hmem | hmem
    · exact htimes invocation hmem
    · rw [List.mem_singleton.mp hmem]
      exact h.past

theorem Waits.invoke (h : batch.Waits clock before) (source : String) :
    (batch.invoke clock source).1.Waits clock
      (before ++ [⟨batch.document source, clock⟩]) := by
  rw [invoke_eq]
  split
  · exact (h.add source).flush
  · exact h.add source

/-- A call that makes no refused attempt leaves nothing behind or only what is not yet due. -/
theorem invoke_without_refusal {source : String} {made : List BulkCall}
    (hcalls : (batch.invoke now source).1.calls = batch.calls ++ made)
    (hmade : ∀ call ∈ made, call.Succeeds) :
    (batch.invoke now source).1.documents = [] ∨
      ¬ (batch.invoke now source).1.IsDue now := by
  rw [invoke_eq] at hcalls ⊢
  by_cases hdue : (batch.add source).IsDue now
  · rw [if_pos hdue] at hcalls ⊢
    obtain ⟨made', hflushes⟩ := (batch.add source).flush_flushes now
    generalize ((batch.add source).flush now).1 = result at hflushes
    generalize ((batch.add source).flush now).2 = batch' at hflushes hcalls ⊢
    cases hflushes with
    | nothing hnone => exact .inl hnone
    | taken hsome hwrite => exact .inl rfl
    | @refused endpoint fault hsome hwrite =>
        have hown : [⟨(batch.add source).documents, .error fault⟩] = made :=
          List.append_cancel_left hcalls
        have hfailed : BulkCall.Succeeds ⟨(batch.add source).documents, .error fault⟩ :=
          hmade _ (by rw [← hown]; exact List.mem_singleton_self _)
        exact absurd hfailed (by simp [BulkCall.Succeeds])
  · rw [if_neg hdue]
    exact .inr hdue

omit [BulkEndpoint ω] in
/-- What waits in a batch that is not due was brought less than the age ago. -/
theorem Waits.age_lt (h : batch.Waits clock before)
    (hcalm : batch.documents = [] ∨ ¬ batch.IsDue clock) :
    ∃ waiting, waiting <:+ before ∧ waiting.map Invocation.document = batch.documents ∧
      ∀ invocation ∈ waiting, Millis.sub clock invocation.time < batch.maxAge := by
  obtain ⟨waiting, hsuffix, hdocuments, htimes⟩ := h.recent
  refine ⟨waiting, hsuffix, hdocuments, ?_⟩
  intro invocation hmem
  rcases hcalm with hnone | hdue
  · rw [hnone, List.map_eq_nil_iff] at hdocuments
    simp [hdocuments] at hmem
  · have hyoung : batch.age clock < batch.maxAge := by
      by_contra hold
      exact hdue (.inr (by omega))
    calc Millis.sub clock invocation.time
        ≤ Millis.sub clock batch.lastFlush :=
          Millis.clamp_mono (Int.sub_le_sub_left (htimes invocation hmem) clock)
      _ ≤ batch.age clock := Int.le_max_right ..
      _ < batch.maxAge := hyoung

end Batch

namespace BatchSession

/-! ## Sessions -/

section
variable {session : BatchSession (Logged ω)} {index docType : String} {size maxAge : Nat}
  {before : List Invocation}

theorem clock_act (session : BatchSession (Logged ω)) (action : BatchAction) :
    (session.act action).clock = action.after session.clock := by
  cases action <;> rfl

theorem hasLimits_act (h : session.batch.HasLimits index docType size maxAge)
    (action : BatchAction) : (session.act action).batch.HasLimits index docType size maxAge := by
  cases action with
  | invoke source =>
      show (session.batch.invoke session.clock source).1.HasLimits index docType size maxAge
      rw [Batch.invoke_eq]
      have hadded : (session.batch.add source).HasLimits index docType size maxAge := h
      split
      · exact hadded.flush
      · exact hadded
  | flush => exact h.flush
  | snapshot attempts =>
      have hkept : ∀ batch : Batch (Logged ω), batch.HasLimits index docType size maxAge →
          (batch.flush session.clock).2.HasLimits index docType size maxAge := fun _ h => h.flush
      exact Batch.flushUntilEmpty_keeps hkept h attempts 0
  | clock now => exact h

theorem bounded_act (h : session.batch.Bounded) (action : BatchAction) :
    (session.act action).batch.Bounded := by
  cases action with
  | invoke source => exact h.invoke source
  | flush => exact h.flush
  | snapshot attempts => exact Batch.flushUntilEmpty_keeps (fun _ h => h.flush) h attempts 0
  | clock now => exact h

theorem waits_act (hlimits : session.batch.HasLimits index docType size maxAge)
    (h : session.batch.Waits session.clock before) {action : BatchAction}
    (hforward : session.clock ≤ action.after session.clock) :
    (session.act action).batch.Waits (session.act action).clock
      (before ++ action.invocations index docType session.clock) := by
  cases action with
  | invoke source =>
      rw [← hlimits.1, ← hlimits.2.1]
      exact h.invoke source
  | flush =>
      show (session.batch.flush session.clock).2.Waits session.clock (before ++ [])
      rw [List.append_nil]
      exact h.flush
  | snapshot attempts =>
      show (session.batch.snapshot session.clock attempts).1.Waits session.clock (before ++ [])
      have hkept : ∀ batch : Batch (Logged ω), batch.Waits session.clock before →
          (batch.flush session.clock).2.Waits session.clock before := fun _ h => h.flush
      rw [List.append_nil]
      exact Batch.flushUntilEmpty_keeps hkept h attempts 0
  | clock now =>
      show session.batch.Waits now (before ++ [])
      rw [List.append_nil]
      exact ⟨Int.le_trans h.past hforward, h.recent⟩

theorem hasLimits_run (h : session.batch.HasLimits index docType size maxAge)
    (actions : List BatchAction) : (session.run actions).batch.HasLimits index docType size maxAge := by
  induction actions generalizing session with
  | nil => exact h
  | cons action actions ih => exact ih (hasLimits_act h action)

theorem bounded_run (h : session.batch.Bounded) (actions : List BatchAction) :
    (session.run actions).batch.Bounded := by
  induction actions generalizing session with
  | nil => exact h
  | cons action actions ih => exact ih (bounded_act h action)

theorem waits_run (hlimits : session.batch.HasLimits index docType size maxAge)
    (h : session.batch.Waits session.clock before) {actions : List BatchAction}
    (hforward : NeverBack session.clock actions) :
    (session.run actions).batch.Waits (session.run actions).clock
      (before ++ invocations index docType session.clock actions) := by
  induction actions generalizing session before with
  | nil =>
      rw [invocations, List.append_nil]
      exact h
  | cons action actions ih =>
      rw [run_cons, invocations, ← List.append_assoc, ← clock_act]
      apply ih (hasLimits_act hlimits action) (waits_act hlimits h hforward.1)
      rw [clock_act]
      exact hforward.2

end

/-! ## Both bounds -/

section
variable (index docType : String) (size maxAge : Nat) (start : Int) (actions : List BatchAction)
  (source : String)

/-- After each document fewer than a batch's size wait, and one more for each refusal since a batch was
last taken. Where the clock never goes back and the document causes no refusal, all that wait were
brought less than the age ago, where a time too long to tell counts as the longest that can be told.
The record of the calls changes nothing of the session. -/
theorem bounds_waiting {ω : Type} [BulkEndpoint ω] (endpoint : ω) :
    let before := logged index docType size maxAge start actions endpoint
    let after := before.act (.invoke source)
    after.forget =
        (opened endpoint index docType size maxAge start).run (actions ++ [.invoke source]) ∧
      after.batch.documents.length ≤ max size 1 - 1 + refusedInARow after.batch.calls ∧
      (after.batch.documents = [] → refusedInARow after.batch.calls = 0) ∧
      (NeverBack start actions → ∀ made, after.batch.calls = before.batch.calls ++ made →
        (∀ call ∈ made, call.Succeeds) →
        ∃ waiting, waiting <:+ invocations index docType start (actions ++ [.invoke source]) ∧
          waiting.map Invocation.document = after.batch.documents ∧
          ∀ invocation ∈ waiting, Millis.sub after.clock invocation.time < maxAge ∧
            ((maxAge : Int) ≤ Millis.latest → after.clock - invocation.time < maxAge)) := by
  intro before after
  have hopened : (opened (⟨endpoint, []⟩ : Logged ω) index docType size maxAge start).batch.HasLimits
      index docType (max size 1) maxAge := ⟨rfl, rfl, rfl, rfl⟩
  have hlimits : before.batch.HasLimits index docType (max size 1) maxAge :=
    hasLimits_run hopened actions
  have hlimits' : after.batch.HasLimits index docType (max size 1) maxAge :=
    hasLimits_act hlimits (.invoke source)
  have hbounded : after.batch.Bounded := by
    have hfirst : (opened (⟨endpoint, []⟩ : Logged ω) index docType size maxAge start).batch.Bounded :=
      ⟨Nat.le_max_right .., Nat.zero_le _, fun _ => rfl⟩
    exact bounded_act (bounded_run hfirst actions) (.invoke source)
  refine ⟨?_, ?_, hbounded.calm, ?_⟩
  · rw [← act_forget, show before.forget = _ from (run_forget _ actions).symm, run_append]
    rfl
  · rw [← hlimits'.2.2.1]
    exact hbounded.few
  · intro hforward made hcalls hmade
    have hwaits : after.batch.Waits after.clock
        (invocations index docType start (actions ++ [.invoke source])) := by
      have hnone : (opened (⟨endpoint, []⟩ : Logged ω) index docType size maxAge start).batch.Waits
          start [] := ⟨Int.le_refl _, [], List.nil_suffix, rfl, by simp⟩
      have hrun := waits_run hopened hnone (hforward.concat_invoke source)
      rwa [run_append, List.nil_append] at hrun
    have hcalm := Batch.invoke_without_refusal hcalls hmade
    obtain ⟨waiting, hsuffix, hdocuments, hyoung⟩ := hwaits.age_lt hcalm
    refine ⟨waiting, hsuffix, hdocuments, ?_⟩
    intro invocation hmem
    have hyoung' := hyoung invocation hmem
    rw [hlimits'.2.2.2] at hyoung'
    refine ⟨hyoung', fun hfits => ?_⟩
    simp only [Millis.sub, Millis.clamp, Millis.earliest, Millis.latest] at hyoung' hfits
    omega

/-- Two documents that wait, one after a refusal, and one that a clock brings to the endpoint. -/
theorem bounds_waiting_refusal :
    let before := logged "i" "t" 2 10 0 [.clock 3, .invoke "a", .clock 7]
      ({ refusals := [true] } : BulkRecorder)
    let after := before.act (.invoke "b")
    (after.batch.documents.length = 2 ∧
      after.batch.documents.length ≤ 2 - 1 + refusedInARow after.batch.calls) ∧
    NeverBack 0 [.clock 3, .invoke "a", .clock 7] ∧
    ∃ waiting, waiting <:+ invocations "i" "t" 0 ([.clock 3] ++ [.invoke "a"]) ∧
      waiting.map Invocation.document = [⟨"i", "t", "a"⟩] ∧
      ∀ invocation ∈ waiting, 3 - invocation.time < 10 := by
  intro before after
  have hbounds := bounds_waiting "i" "t" 2 10 0 [.clock 3, .invoke "a", .clock 7] "b"
    ({ refusals := [true] } : BulkRecorder)
  refine ⟨⟨rfl, hbounds.2.1⟩, by decide, ?_⟩
  obtain ⟨-, -, -, hyoung⟩ := bounds_waiting "i" "t" 2 10 0 [.clock 3] "a"
    ({ refusals := [true] } : BulkRecorder)
  obtain ⟨waiting, hsuffix, hdocuments, htimes⟩ := hyoung (by decide) [] rfl (by simp)
  refine ⟨waiting, hsuffix, hdocuments, fun invocation hmem => ?_⟩
  exact (htimes invocation hmem).2 (by decide)

/-- A clock that goes from one end of its range to the other: the time it shows as passed is less than
the time that passed, and a document waits for longer than its age. -/
theorem waiting_exceeds_age :
    let before := logged "i" "t" 10 9223372036854775808 Millis.earliest
      [.invoke "a", .clock Millis.latest] ({} : BulkRecorder)
    let after := before.act (.invoke "b")
    NeverBack Millis.earliest [.invoke "a", .clock Millis.latest] ∧
      after.batch.calls = before.batch.calls ++ [] ∧
      after.batch.documents = [⟨"i", "t", "a"⟩, ⟨"i", "t", "b"⟩] ∧
      invocations "i" "t" Millis.earliest [.invoke "a", .clock Millis.latest, .invoke "b"] =
        [⟨⟨"i", "t", "a"⟩, Millis.earliest⟩, ⟨⟨"i", "t", "b"⟩, Millis.latest⟩] ∧
      ¬ after.clock - Millis.earliest < 9223372036854775808 := by
  intro before after
  have hforward : NeverBack Millis.earliest [.invoke "a", .clock Millis.latest] := by decide
  have hcalls : after.batch.calls = before.batch.calls ++ [] := rfl
  have hold : ¬ after.clock - Millis.earliest < 9223372036854775808 := by decide
  exact ⟨hforward, hcalls, rfl, rfl, hold⟩

end

end BatchSession

end EventReplay
