import EventReplay.Bulk.Endpoint
import EventReplay.Proofs.WriterQueue

/-!
# What a batch hands over

An endpoint that keeps the calls made to it (`Logged`) shows what a batch hands over without any
change to what the batch does (`Batch.flush_forget`). Whatever the endpoint answers, every operation of a
batch hands over all documents at once or none, and loses, doubles and moves none of them
(`Batch.Moves`).
-/

set_option autoImplicit false

namespace EventReplay

/-! ## The calls of an endpoint -/

/-- A call of an endpoint. -/
structure BulkCall where
  documents : List Document
  answer : Except BulkFault Unit
deriving Repr

namespace BulkCall

/-- The documents that the endpoint took: all or none. -/
def taken (call : BulkCall) : List Document :=
  match call.answer with
  | .ok () => call.documents
  | .error _ => []

/-- The endpoint took the documents. -/
def Succeeds (call : BulkCall) : Prop := call.answer = .ok ()

theorem taken_of_succeeds {call : BulkCall} (h : call.Succeeds) : call.taken = call.documents := by
  simp only [taken, show call.answer = .ok () from h]

end BulkCall

/-- An endpoint and the calls that were made to it, first to come first. -/
structure Logged (ω : Type) where
  endpoint : ω
  calls : List BulkCall := []

variable {ω : Type} [BulkEndpoint ω]

instance : BulkEndpoint (Logged ω) where
  write documents logged :=
    let (answer, endpoint) := BulkEndpoint.write documents logged.endpoint
    (answer, ⟨endpoint, logged.calls ++ [⟨documents, answer⟩]⟩)

/-- An endpoint that refuses its next `k` calls, whatever they bring, and takes the one after those. -/
def RefusesNext : Nat → ω → Prop
  | 0, endpoint => ∀ documents, (BulkEndpoint.write documents endpoint).1 = .ok ()
  | k + 1, endpoint => ∀ documents,
    (∃ fault, (BulkEndpoint.write documents endpoint).1 = .error fault) ∧
    RefusesNext k (BulkEndpoint.write documents endpoint).2

namespace Batch

/-- The batch without the record of its calls. -/
def forget (batch : Batch (Logged ω)) : Batch ω :=
  ⟨batch.endpoint.endpoint, batch.index, batch.docType, batch.size, batch.maxAge, batch.documents,
    batch.lastFlush⟩

/-- The calls made so far. -/
def calls (batch : Batch (Logged ω)) : List BulkCall := batch.endpoint.calls

variable {batch batch' : Batch (Logged ω)} {brought : List Document} {made : List BulkCall} {now : Int}

/-- What a flush can come to: there is nothing to hand over, or all is handed over, and then taken or
refused. -/
inductive Flushes (batch : Batch (Logged ω)) (now : Int) :
    Except BulkFault Unit → List BulkCall → Batch (Logged ω) → Prop
  | nothing (hnone : batch.documents = []) :
      Flushes batch now (.ok ()) [] { batch with lastFlush := now }
  | taken {endpoint : ω} (hsome : batch.documents ≠ [])
      (hwrite : BulkEndpoint.write batch.documents batch.endpoint.endpoint = (.ok (), endpoint)) :
      Flushes batch now (.ok ()) [⟨batch.documents, .ok ()⟩]
        { batch with
          endpoint := ⟨endpoint, batch.calls ++ [⟨batch.documents, .ok ()⟩]⟩
          documents := []
          lastFlush := now }
  | refused {endpoint : ω} {fault : BulkFault} (hsome : batch.documents ≠ [])
      (hwrite : BulkEndpoint.write batch.documents batch.endpoint.endpoint =
        (.error fault, endpoint)) :
      Flushes batch now (.error fault) [⟨batch.documents, .error fault⟩]
        { batch with endpoint := ⟨endpoint, batch.calls ++ [⟨batch.documents, .error fault⟩]⟩ }

theorem flush_flushes (batch : Batch (Logged ω)) (now : Int) :
    ∃ made, Flushes batch now (batch.flush now).1 made (batch.flush now).2 := by
  by_cases hnone : batch.documents = []
  · simp only [flush, if_pos hnone]
    exact ⟨[], .nothing hnone⟩
  · simp only [flush, if_neg hnone, BulkEndpoint.write]
    rcases hwrite : BulkEndpoint.write batch.documents batch.endpoint.endpoint with
      ⟨fault | ⟨⟩, endpoint⟩
    · exact ⟨_, .refused hnone hwrite⟩
    · exact ⟨_, .taken hnone hwrite⟩

/-- A flush that fails leaves the documents and the time of the last hand-over as they are. -/
theorem flush_error {batch batch' : Batch ω} {now : Int} {fault : BulkFault}
    (h : batch.flush now = (.error fault, batch')) :
    batch'.documents = batch.documents ∧ batch'.lastFlush = batch.lastFlush := by
  unfold flush at h
  split at h
  · simp at h
  · generalize BulkEndpoint.write batch.documents batch.endpoint = answer at h
    obtain ⟨_ | _, endpoint⟩ := answer
    · cases h
      exact ⟨rfl, rfl⟩
    · simp at h

/-- The record of the calls changes nothing of what a flush does. -/
theorem flush_forget (batch : Batch (Logged ω)) (now : Int) :
    batch.forget.flush now = ((batch.flush now).1, (batch.flush now).2.forget) := by
  obtain ⟨made, hflushes⟩ := batch.flush_flushes now
  generalize batch.flush now = answer at hflushes ⊢
  obtain ⟨result, batch'⟩ := answer
  cases hflushes with
  | nothing hnone => simp [flush, forget, hnone]
  | taken hsome hwrite => simp [flush, forget, hsome, hwrite]
  | refused hsome hwrite => simp [flush, forget, hsome, hwrite]

/-! ## The operations step by step -/

section
variable (batch : Batch ω) (now : Int)

/-- The document that a batch makes of a source. -/
def document (source : String) : Document := ⟨batch.index, batch.docType, source⟩

/-- The batch with one more document. -/
def add (source : String) : Batch ω :=
  { batch with documents := batch.documents ++ [batch.document source] }

/-- There are enough documents, or the last hand-over is too long ago. -/
def IsDue : Prop := batch.size ≤ batch.documents.length ∨ (batch.maxAge : Int) ≤ batch.age now

instance : Decidable (batch.IsDue now) := inferInstanceAs (Decidable (_ ∨ _))

theorem invoke_eq (source : String) : (batch.invoke now source).1 =
    if (batch.add source).IsDue now then ((batch.add source).flush now).2 else batch.add source := by
  have hadd : batch.add source =
      { batch with documents := batch.documents ++ [⟨batch.index, batch.docType, source⟩] } := rfl
  rw [invoke, ← hadd]
  by_cases hdue : (batch.add source).IsDue now
  · rw [if_pos hdue]
    refine (congrArg Prod.fst (if_pos hdue)).trans ?_
    rcases (batch.add source).flush now with ⟨_ | _, batch'⟩ <;> rfl
  · rw [if_neg hdue]
    exact congrArg Prod.fst (if_neg hdue)

/-- Only the notices tell how many attempts were made before. -/
theorem flushUntilEmpty_tried (attempts tried tried' : Nat) :
    (flushUntilEmpty now attempts tried batch).1 = (flushUntilEmpty now attempts tried' batch).1 := by
  induction attempts generalizing batch tried tried' with
  | zero => rfl
  | succ attempts ih =>
      simp only [flushUntilEmpty]
      split
      · rfl
      · rcases batch.flush now with ⟨_ | _, batch'⟩ <;> exact ih batch' (tried + 1) (tried' + 1)

variable {batch}

theorem flushUntilEmpty_of_none (h : batch.documents = []) (attempts tried : Nat) :
    (flushUntilEmpty now attempts tried batch).1 = batch := by
  cases attempts <;> simp [flushUntilEmpty, h]

theorem flushUntilEmpty_succ (h : batch.documents ≠ []) (attempts tried : Nat) :
    (flushUntilEmpty now (attempts + 1) tried batch).1 =
      (flushUntilEmpty now attempts (tried + 1) (batch.flush now).2).1 := by
  simp only [flushUntilEmpty, if_neg h]
  rcases batch.flush now with ⟨_ | _, batch'⟩ <;> rfl

theorem flushUntilEmpty_add (attempts more tried : Nat) :
    (flushUntilEmpty now (attempts + more) tried batch).1 =
      (flushUntilEmpty now more tried (flushUntilEmpty now attempts tried batch).1).1 := by
  induction attempts generalizing batch tried with
  | zero => rw [Nat.zero_add]; rfl
  | succ attempts ih =>
      by_cases hnone : batch.documents = []
      · rw [flushUntilEmpty_of_none now hnone, flushUntilEmpty_of_none now hnone,
          flushUntilEmpty_of_none now hnone]
      · rw [Nat.add_right_comm, flushUntilEmpty_succ now hnone, flushUntilEmpty_succ now hnone, ih]
        exact flushUntilEmpty_tried ..

/-! What holds of an endpoint and is kept by its writes is kept by every operation. -/

variable {holds : ω → Prop} {now : Int}
  (hwrite : ∀ documents endpoint, holds endpoint → holds (BulkEndpoint.write documents endpoint).2)
include hwrite

theorem keeps_flush (h : holds batch.endpoint) : holds (batch.flush now).2.endpoint := by
  unfold flush
  split
  · exact h
  · have hkept := hwrite batch.documents batch.endpoint h
    generalize BulkEndpoint.write batch.documents batch.endpoint = answer at hkept ⊢
    obtain ⟨_ | _, endpoint⟩ := answer <;> exact hkept

theorem keeps_invoke {source : String} (h : holds batch.endpoint) :
    holds (batch.invoke now source).1.endpoint := by
  rw [invoke_eq]
  split
  · have hadded : holds (batch.add source).endpoint := h
    exact keeps_flush hwrite hadded
  · exact h

theorem keeps_flushUntilEmpty {attempts tried : Nat} (h : holds batch.endpoint) :
    holds (flushUntilEmpty now attempts tried batch).1.endpoint := by
  induction attempts generalizing batch tried with
  | zero => exact h
  | succ attempts ih =>
      by_cases hnone : batch.documents = []
      · rwa [flushUntilEmpty_of_none now hnone]
      · rw [flushUntilEmpty_succ now hnone]
        exact ih (keeps_flush hwrite h)

end

theorem invoke_forget (batch : Batch (Logged ω)) (now : Int) (source : String) :
    (batch.forget.invoke now source).1 = (batch.invoke now source).1.forget := by
  have hflush := (batch.add source).flush_forget now
  have hdue : (batch.add source).forget.IsDue now ↔ (batch.add source).IsDue now := Iff.rfl
  have hadd : batch.forget.add source = (batch.add source).forget := rfl
  rw [invoke_eq, invoke_eq, hadd, hflush]
  by_cases h : (batch.add source).IsDue now
  · rw [if_pos (hdue.mpr h), if_pos h]
  · rw [if_neg fun hdue' => h (hdue.mp hdue'), if_neg h]

theorem flushUntilEmpty_forget (batch : Batch (Logged ω)) (now : Int) (attempts tried : Nat) :
    (flushUntilEmpty now attempts tried batch.forget).1 =
      (flushUntilEmpty now attempts tried batch).1.forget := by
  induction attempts generalizing batch tried with
  | zero => rfl
  | succ attempts ih =>
      by_cases hnone : batch.documents = []
      · rw [flushUntilEmpty_of_none now hnone, flushUntilEmpty_of_none now]
        exact hnone
      · have hsome : batch.forget.documents ≠ [] := hnone
        rw [flushUntilEmpty_succ now hnone, flushUntilEmpty_succ now hsome, flush_forget, ih]

/-! ## What every operation keeps -/

/-- What an operation that brings some documents and makes some calls can do to a batch. -/
structure Moves (batch : Batch (Logged ω)) (brought : List Document) (made : List BulkCall)
    (batch' : Batch (Logged ω)) : Prop where
  calls : batch'.calls = batch.calls ++ made
  /-- What was taken and what still waits is what waited before and what was brought. -/
  conserved : made.flatMap BulkCall.taken ++ batch'.documents = batch.documents ++ brought
  /-- Every call hands over all that waits, and something waits. -/
  whole : ∀ call ∈ made, call.documents = batch.documents ++ brought ∧ call.documents ≠ []
  /-- Where every call was refused, the time of the last hand-over stays. -/
  stale : made ≠ [] → (∀ call ∈ made, ¬ call.Succeeds) → batch'.lastFlush = batch.lastFlush
  index : batch'.index = batch.index
  docType : batch'.docType = batch.docType

omit [BulkEndpoint ω] in
theorem Moves.rest (batch : Batch (Logged ω)) : Moves batch [] [] batch := by
  exact {
    calls := by simp
    conserved := by simp
    whole := by simp
    stale := by simp
    index := rfl
    docType := rfl }

theorem Flushes.moves {result : Except BulkFault Unit}
    (h : Flushes batch now result made batch') : Moves batch [] made batch' := by
  cases h with
  | nothing hnone =>
      exact {
        calls := by simp [Batch.calls]
        conserved := by simp
        whole := by simp
        stale := by simp
        index := rfl
        docType := rfl }
  | taken hsome hwrite =>
      exact {
        calls := rfl
        conserved := by simp [BulkCall.taken]
        whole := by simp [hsome]
        stale := by simp [BulkCall.Succeeds]
        index := rfl
        docType := rfl }
  | refused hsome hwrite =>
      exact {
        calls := rfl
        conserved := by simp [BulkCall.taken]
        whole := by simp [hsome]
        stale := by simp
        index := rfl
        docType := rfl }

omit [BulkEndpoint ω] in
/-- A document that is brought to a batch counts as brought by what is done next. -/
theorem Moves.of_add {source : String} (h : Moves (batch.add source) [] made batch') :
    Moves batch [batch.document source] made batch' := by
  exact {
    calls := h.calls
    conserved := by rw [h.conserved, List.append_nil]; rfl
    whole := fun call hcall => by simpa [add] using h.whole call hcall
    stale := h.stale
    index := h.index
    docType := h.docType }

theorem moves_invoke (batch : Batch (Logged ω)) (now : Int) (source : String) :
    ∃ made, Moves batch [batch.document source] made (batch.invoke now source).1 := by
  rw [invoke_eq]
  split
  · obtain ⟨made, hflushes⟩ := (batch.add source).flush_flushes now
    exact ⟨made, hflushes.moves.of_add⟩
  · exact ⟨[], (Moves.rest _).of_add⟩

omit [BulkEndpoint ω] in
/-- A refused attempt may be followed by others. -/
theorem Moves.retry {fault : BulkFault} {endpoint : ω} (hsome : batch.documents ≠ [])
    (h : Moves { batch with
      endpoint := ⟨endpoint, batch.calls ++ [⟨batch.documents, .error fault⟩]⟩ } [] made batch')
    (hstill : made = [] → batch'.lastFlush = batch.lastFlush) :
    Moves batch [] (⟨batch.documents, .error fault⟩ :: made) batch' := by
  exact {
    calls := by rw [h.calls]; simp [Batch.calls]
    conserved := by simpa [BulkCall.taken] using h.conserved
    whole := by
      intro call hcall
      rcases List.mem_cons.mp hcall with rfl | hcall
      · simp [hsome]
      · exact h.whole call hcall
    stale := by
      intro _ hfail
      by_cases hmade : made = []
      · exact hstill hmade
      · exact h.stale hmade fun call hcall => hfail call (List.mem_cons_of_mem _ hcall)
    index := h.index
    docType := h.docType }

/-- Attempts that make no call leave the batch as it is. -/
theorem moves_flushUntilEmpty (batch : Batch (Logged ω)) (now : Int) (attempts tried : Nat) :
    ∃ made, Moves batch [] made (flushUntilEmpty now attempts tried batch).1 ∧
      (made = [] → (flushUntilEmpty now attempts tried batch).1 = batch) := by
  induction attempts generalizing batch tried with
  | zero => exact ⟨[], .rest batch, fun _ => rfl⟩
  | succ attempts ih =>
      by_cases hnone : batch.documents = []
      · rw [flushUntilEmpty_of_none now hnone]
        exact ⟨[], .rest batch, fun _ => rfl⟩
      rw [flushUntilEmpty_succ now hnone]
      obtain ⟨made, hflushes⟩ := batch.flush_flushes now
      generalize (batch.flush now).1 = result at hflushes
      generalize (batch.flush now).2 = batch' at hflushes ⊢
      cases hflushes with
      | nothing h => exact absurd h hnone
      | taken hsome hwrite =>
          rw [flushUntilEmpty_of_none now rfl]
          exact ⟨_, (Flushes.taken hsome hwrite).moves, by simp⟩
      | @refused endpoint fault hsome hwrite =>
          obtain ⟨made, hmoves, hstill⟩ := ih { batch with
            endpoint := ⟨endpoint, batch.calls ++ [⟨batch.documents, .error fault⟩]⟩ } (tried + 1)
          exact ⟨_, hmoves.retry hsome fun hmade => by rw [hstill hmade], by simp⟩

/-! ## Checkpoints -/

/-- A checkpoint has returned when further attempts would do nothing. -/
def HasReturned (batch : Batch ω) (now : Int) (attempts : Nat) : Prop :=
  ∀ more, (batch.snapshot now (attempts + more)).1 = (batch.snapshot now attempts).1

theorem length_calls_flush (now : Int) (hsome : batch.documents ≠ []) :
    (batch.flush now).2.calls.length = batch.calls.length + 1 := by
  obtain ⟨made, hflushes⟩ := batch.flush_flushes now
  generalize (batch.flush now).1 = result at hflushes
  generalize (batch.flush now).2 = batch' at hflushes ⊢
  cases hflushes with
  | nothing hnone => exact absurd hnone hsome
  | taken _ _ => simp [Batch.calls]
  | refused _ _ => simp [Batch.calls]

/-- A checkpoint returns only when no document waits, and then it does. -/
theorem hasReturned_iff (batch : Batch (Logged ω)) (now : Int) (attempts : Nat) :
    batch.HasReturned now attempts ↔ (batch.snapshot now attempts).1.documents = [] := by
  constructor
  · intro hreturned
    by_contra hsome
    have hmore := hreturned 1
    rw [snapshot, flushUntilEmpty_add] at hmore
    have hsame := (flushUntilEmpty_succ now hsome 0 0).symm.trans hmore
    have hlonger := length_calls_flush now hsome
    rw [show ((batch.snapshot now attempts).1.flush now).2 = (batch.snapshot now attempts).1 from hsame]
      at hlonger
    omega
  · intro hnone more
    rw [snapshot, snapshot, flushUntilEmpty_add]
    exact flushUntilEmpty_of_none now hnone ..

/-- Against an endpoint that refuses its next `k` calls, a checkpoint makes one call an attempt until
the call after those. -/
theorem flushUntilEmpty_refuses (now : Int) {k : Nat} (hsome : batch.documents ≠ [])
    (h : RefusesNext k batch.endpoint.endpoint) (attempts tried : Nat) :
    (flushUntilEmpty now attempts tried batch).1.calls.length =
        batch.calls.length + min attempts (k + 1) ∧
      ((flushUntilEmpty now attempts tried batch).1.documents = [] ↔ k < attempts) := by
  induction attempts generalizing batch k tried with
  | zero => simp [flushUntilEmpty, hsome]
  | succ attempts ih =>
      rw [flushUntilEmpty_succ now hsome]
      obtain ⟨made, hflushes⟩ := batch.flush_flushes now
      generalize (batch.flush now).1 = result at hflushes
      generalize (batch.flush now).2 = batch' at hflushes ⊢
      cases k with
      | zero =>
          have hanswer := h batch.documents
          cases hflushes with
          | nothing hnone => exact absurd hnone hsome
          | taken _ hwrite =>
              rw [flushUntilEmpty_of_none now rfl]
              simp [Batch.calls]
          | refused _ hwrite => simp [hwrite] at hanswer
      | succ k =>
          obtain ⟨⟨_, hanswer⟩, hnext⟩ := h batch.documents
          cases hflushes with
          | nothing hnone => exact absurd hnone hsome
          | taken _ hwrite => simp [hwrite] at hanswer
          | @refused endpoint fault _ hwrite =>
              let refused : Batch (Logged ω) := { batch with
                endpoint := ⟨endpoint, batch.calls ++ [⟨batch.documents, .error fault⟩]⟩ }
              have hnext' : RefusesNext k refused.endpoint.endpoint := by
                rw [hwrite] at hnext
                exact hnext
              have hsome' : refused.documents ≠ [] := hsome
              obtain ⟨hcalls, hempty⟩ := ih hsome' hnext' (tried + 1)
              have hlonger : refused.calls.length = batch.calls.length + 1 := by
                simp [refused, Batch.calls]
              refine ⟨?_, by rw [hempty]; omega⟩
              rw [hcalls, hlonger]
              omega

end Batch

end EventReplay
