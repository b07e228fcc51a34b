import EventReplay.Proofs.BatchMoves

/-!
# A batch loses, doubles and reorders nothing

A `BatchSession` is a batch with a clock, through every sequence of documents, flushes, checkpoints and
changes of the clock. Whatever the endpoint answers, what it took and what still waits are together the
documents of the session in their order (`BatchSession.conserves_documents`). Where every write
succeeds, the file that a checkpoint leaves behind is that of the documents, whenever and in however
many batches they were handed over.
-/

set_option autoImplicit false

namespace EventReplay

/-! ## Sessions -/

/-- What is done with a batch. -/
inductive BatchAction where
  | invoke (source : String)
  | flush
  /-- A checkpoint, left alone after so many attempts. -/
  | snapshot (attempts : Nat)
  /-- The clock is set. -/
  | clock (now : Int)
deriving Repr

/-- A batch and the clock that it reads. -/
structure BatchSession (ω : Type) where
  batch : Batch ω
  clock : Int

namespace BatchAction

/-- The documents that an action brings. -/
def documents (index docType : String) : BatchAction → List Document
  | .invoke source => [⟨index, docType, source⟩]
  | _ => []

end BatchAction

namespace BatchSession

section
variable {ω : Type} [BulkEndpoint ω]

/-- A new batch with limits of its own. -/
def opened (endpoint : ω) (index docType : String) (size maxAge : Nat) (now : Int) :
    BatchSession ω :=
  ⟨Batch.withLimits { endpoint, index, docType, lastFlush := now } size maxAge, now⟩

/-- One action. -/
def act (session : BatchSession ω) : BatchAction → BatchSession ω
  | .invoke source => { session with batch := (session.batch.invoke session.clock source).1 }
  | .flush => { session with batch := (session.batch.flush session.clock).2 }
  | .snapshot attempts => { session with batch := (session.batch.snapshot session.clock attempts).1 }
  | .clock now => { session with clock := now }

/-- One action after another. -/
def run (session : BatchSession ω) (actions : List BatchAction) : BatchSession ω :=
  actions.foldl act session

@[simp] theorem run_nil (session : BatchSession ω) : session.run [] = session := rfl

@[simp] theorem run_cons (session : BatchSession ω) (action : BatchAction)
    (actions : List BatchAction) :
    session.run (action :: actions) = (session.act action).run actions := rfl

theorem run_append (session : BatchSession ω) (before after : List BatchAction) :
    session.run (before ++ after) = (session.run before).run after :=
  List.foldl_append ..

end

/-! ## Every action moves the documents on -/

variable {ω : Type} [BulkEndpoint ω]

/-- The session without the record of its calls. -/
def forget (session : BatchSession (Logged ω)) : BatchSession ω :=
  ⟨session.batch.forget, session.clock⟩

theorem act_forget (session : BatchSession (Logged ω)) (action : BatchAction) :
    session.forget.act action = (session.act action).forget := by
  cases action with
  | invoke source => simp only [act, forget, Batch.invoke_forget]
  | flush => simp only [act, forget, Batch.flush_forget]
  | snapshot attempts => simp only [act, forget, Batch.snapshot, Batch.flushUntilEmpty_forget]
  | clock now => rfl

/-- The record of the calls changes nothing of a session. -/
theorem run_forget (session : BatchSession (Logged ω)) (actions : List BatchAction) :
    session.forget.run actions = (session.run actions).forget := by
  induction actions generalizing session with
  | nil => rfl
  | cons action actions ih => rw [run_cons, run_cons, act_forget, ih]

theorem moves_act (session : BatchSession (Logged ω)) (action : BatchAction) :
    ∃ made, session.batch.Moves (action.documents session.batch.index session.batch.docType) made
      (session.act action).batch := by
  cases action with
  | invoke source => exact session.batch.moves_invoke session.clock source
  | flush =>
      obtain ⟨made, hflushes⟩ := session.batch.flush_flushes session.clock
      exact ⟨made, hflushes.moves⟩
  | snapshot attempts =>
      obtain ⟨made, hmoves, -⟩ := session.batch.moves_flushUntilEmpty session.clock attempts 0
      exact ⟨made, hmoves⟩
  | clock now => exact ⟨[], .rest session.batch⟩

/-- The documents that actions bring, in order. -/
def brought (index docType : String) (actions : List BatchAction) : List Document :=
  actions.flatMap (BatchAction.documents index docType)

theorem brought_cons (index docType : String) (action : BatchAction) (actions : List BatchAction) :
    brought index docType (action :: actions) =
      action.documents index docType ++ brought index docType actions :=
  List.flatMap_cons

theorem run_conserves (session : BatchSession (Logged ω)) (actions : List BatchAction) :
    ∃ made, (session.run actions).batch.calls = session.batch.calls ++ made ∧
      made.flatMap BulkCall.taken ++ (session.run actions).batch.documents =
        session.batch.documents ++
          brought session.batch.index session.batch.docType actions ∧
      (session.run actions).batch.index = session.batch.index ∧
      (session.run actions).batch.docType = session.batch.docType := by
  induction actions generalizing session with
  | nil => exact ⟨[], by simp [brought]⟩
  | cons action actions ih =>
      obtain ⟨made, hmoves⟩ := session.moves_act action
      obtain ⟨made', hcalls, hconserved, hindex, hdocType⟩ := ih (session.act action)
      refine ⟨made ++ made', ?_, ?_, hindex.trans hmoves.index, hdocType.trans hmoves.docType⟩
      · rw [run_cons, hcalls, hmoves.calls, List.append_assoc]
      · rw [run_cons, List.flatMap_append, List.append_assoc, hconserved, ← List.append_assoc,
          hmoves.conserved, hmoves.index, hmoves.docType, List.append_assoc, brought_cons]

/-! ## What every write of the endpoint keeps -/

/-- What holds of an endpoint and is kept by its writes still holds after any session. -/
theorem keeps_run {session : BatchSession ω} {holds : ω → Prop}
    (hwrite : ∀ documents endpoint, holds endpoint → holds (BulkEndpoint.write documents endpoint).2)
    (actions : List BatchAction) (h : holds session.batch.endpoint) :
    holds (session.run actions).batch.endpoint := by
  induction actions generalizing session with
  | nil => exact h
  | cons action actions ih =>
      apply ih
      cases action with
      | invoke source => exact Batch.keeps_invoke hwrite h
      | flush => exact Batch.keeps_flush hwrite h
      | snapshot attempts => exact Batch.keeps_flushUntilEmpty hwrite h
      | clock now => exact h

end BatchSession

/-! ## Files of bulk requests -/

namespace BulkFile

/-- What is written for documents, one after another. -/
def text (documents : List Document) : Bytes := (documents.flatMap pieces).flatten

theorem text_append (before after : List Document) : text (before ++ after) = text before ++ text after := by
  simp [text]

/-- A write that succeeds puts the whole batch behind what the file holds. -/
theorem write_eq_ok {documents : List Document} {bulk bulk' : BulkFile}
    (hpending : bulk.file.pending = []) (h : write documents bulk = (.ok (), bulk')) :
    bulk'.file.content = bulk.file.content ++ text documents ∧ bulk'.file.pending = [] := by
  unfold write at h
  generalize hpieces : bulk.file.writeAll (documents.flatMap pieces) = answer at h
  obtain ⟨_ | _, file⟩ := answer
  · simp at h
  dsimp only at h
  generalize hflush : file.flush = answer at h
  obtain ⟨_ | _, file'⟩ := answer
  · simp at h
  cases h
  obtain ⟨hnone, hcontent⟩ := AppendFile.flush_eq_ok hflush
  refine ⟨?_, hnone⟩
  rw [hcontent, AppendFile.writeAll_eq_ok hpieces, AppendFile.written, hpending, List.append_nil, text]

/-- On a device that takes all bytes every write succeeds. -/
theorem write_of_takes {bulk : BulkFile} (h : bulk.file.Takes) (documents : List Document) :
    ∃ bulk', write documents bulk = (.ok (), bulk') ∧ bulk'.file.Takes := by
  obtain ⟨file, hpieces, htakes, -⟩ := AppendFile.writeAll_of_takes h (documents.flatMap pieces)
  refine ⟨{ bulk with file := { file with content := file.written, pending := [] } }, ?_,
    ⟨htakes.answers, htakes.afterwards⟩⟩
  simp only [write, hpieces, AppendFile.flush_of_takes htakes]

/-- The file holds the documents of the calls behind what it held at first, if every call succeeded. -/
def Holds (first : Bytes) (logged : Logged BulkFile) : Prop :=
  (∀ call ∈ logged.calls, call.Succeeds) →
    logged.endpoint.file.content = first ++ text (logged.calls.flatMap BulkCall.taken) ∧
    logged.endpoint.file.pending = []

theorem Holds.write {first : Bytes} {logged : Logged BulkFile} (documents : List Document)
    (h : Holds first logged) : Holds first (BulkEndpoint.write documents logged).2 := by
  intro hall
  rcases hwrite : BulkFile.write documents logged.endpoint with ⟨answer, bulk'⟩
  simp only [BulkEndpoint.write, hwrite] at hall ⊢
  obtain ⟨hcontent, hpending⟩ := h fun call hcall => hall call (List.mem_append_left _ hcall)
  have hlast : BulkCall.Succeeds ⟨documents, answer⟩ := hall _ (by simp)
  have hanswer : answer = .ok () := hlast
  rw [hanswer] at hwrite
  obtain ⟨hcontent', hpending'⟩ := write_eq_ok hpending hwrite
  refine ⟨?_, hpending'⟩
  rw [hcontent', hcontent, List.append_assoc, ← text_append, List.flatMap_append, List.flatMap_singleton,
    BulkCall.taken_of_succeeds hlast]

/-- The device takes all bytes, and every call succeeded. -/
def Accepts (logged : Logged BulkFile) : Prop :=
  logged.endpoint.file.Takes ∧ ∀ call ∈ logged.calls, call.Succeeds

theorem Accepts.write {logged : Logged BulkFile} (documents : List Document)
    (h : Accepts logged) : Accepts (BulkEndpoint.write documents logged).2 := by
  obtain ⟨bulk', hwrite, htakes⟩ := write_of_takes h.1 documents
  simp only [BulkEndpoint.write, hwrite]
  refine ⟨htakes, ?_⟩
  intro call hcall
  rcases List.mem_append.mp hcall with hcall | hcall
  · exact h.2 call hcall
  · rw [List.mem_singleton.mp hcall]
    rfl

end BulkFile

namespace BatchSession

/-! ## Nothing is lost, doubled or moved -/

section
variable (index docType : String) (size maxAge : Nat) (start : Int) (actions : List BatchAction)

/-- A session with a new batch whose calls are recorded. -/
def logged {ω : Type} [BulkEndpoint ω] (endpoint : ω) : BatchSession (Logged ω) :=
  (opened ⟨endpoint, []⟩ index docType size maxAge start).run actions

theorem taken_logged {ω : Type} [BulkEndpoint ω] (endpoint : ω) :
    let batch := (logged index docType size maxAge start actions endpoint).batch
    batch.calls.flatMap BulkCall.taken ++ batch.documents = brought index docType actions ∧
    batch.index = index ∧ batch.docType = docType := by
  obtain ⟨made, hcalls, hconserved, hindex, hdocType⟩ :=
    (opened (⟨endpoint, []⟩ : Logged ω) index docType size maxAge start).run_conserves actions
  refine ⟨?_, hindex, hdocType⟩
  rw [logged, hcalls]
  exact hconserved

variable {index docType size maxAge start actions}

/-- Where all writes succeed, the file holds the documents that were brought, and nothing of the limits
or of the clock shows in it. -/
theorem file_logged {bulk : BulkFile} {attempts : Nat} (hpending : bulk.file.pending = []) :
    let session := logged index docType size maxAge start actions bulk
    let after := (session.batch.snapshot session.clock attempts).1
    after.documents = [] → (∀ call ∈ after.calls, call.Succeeds) →
      after.endpoint.endpoint.file.content =
        bulk.file.content ++ BulkFile.text (brought index docType actions) := by
  intro session after hnone hall
  have hfirst : BulkFile.Holds bulk.file.content ⟨bulk, []⟩ :=
    fun _ => ⟨by simp [BulkFile.text], hpending⟩
  have hholds : BulkFile.Holds bulk.file.content after.endpoint :=
    Batch.keeps_flushUntilEmpty (fun documents _ h => h.write documents)
      (keeps_run (fun documents _ h => h.write documents) actions hfirst)
  obtain ⟨htaken, -, -⟩ := taken_logged index docType size maxAge start
    (actions ++ [.snapshot attempts]) bulk
  have hafter : (logged index docType size maxAge start (actions ++ [.snapshot attempts]) bulk).batch =
      after := by
    rw [logged, run_append]
    rfl
  have hbrought : brought index docType (actions ++ [.snapshot attempts]) =
      brought index docType actions := by
    simp [brought, BatchAction.documents]
  rw [hafter, hnone, List.append_nil, hbrought] at htaken
  rw [(hholds hall).1, ← htaken]
  rfl

/-- A device that takes all bytes lets every checkpoint return that makes an attempt, and every call
succeed. -/
theorem accepts_logged {bulk : BulkFile} (htakes : bulk.file.Takes) {attempts : Nat}
    (hattempts : 0 < attempts) :
    let session := logged index docType size maxAge start actions bulk
    let after := (session.batch.snapshot session.clock attempts).1
    after.documents = [] ∧ ∀ call ∈ after.calls, call.Succeeds := by
  intro session after
  have hfirst : BulkFile.Accepts ⟨bulk, []⟩ := ⟨htakes, by simp⟩
  have hbefore : BulkFile.Accepts session.batch.endpoint :=
    keeps_run (fun documents _ h => h.write documents) actions hfirst
  have hafter : BulkFile.Accepts after.endpoint :=
    Batch.keeps_flushUntilEmpty (fun documents _ h => h.write documents) hbefore
  refine ⟨?_, hafter.2⟩
  have hnext : RefusesNext 0 session.batch.endpoint.endpoint := by
    intro documents
    obtain ⟨bulk', hwrite, -⟩ := BulkFile.write_of_takes hbefore.1 documents
    exact congrArg Prod.fst hwrite
  by_cases hnone : session.batch.documents = []
  · rw [show after = session.batch from Batch.flushUntilEmpty_of_none _ hnone ..]
    exact hnone
  · exact (Batch.flushUntilEmpty_refuses _ hnone hnext attempts 0).2.mpr hattempts

end

/-- For every endpoint and every session, whatever the limits and the clock: what the endpoint took and
what still waits are together the documents that were brought, in order. Every call hands over all that
waits, and something waits; a hand-over that fails leaves the documents and the time of the last one
alone. A checkpoint returns only when nothing waits, after exactly one call more than the endpoint
refuses. The file that a checkpoint leaves where every write succeeds is that of the documents. -/
theorem conserves_documents (index docType : String) (size maxAge : Nat) (start : Int)
    (actions : List BatchAction) :
    (∀ {ω : Type} [BulkEndpoint ω] (endpoint : ω),
      let session := logged index docType size maxAge start actions endpoint
      let batch := session.batch
      session.forget = (opened endpoint index docType size maxAge start).run actions ∧
      batch.calls.flatMap BulkCall.taken ++ batch.documents = brought index docType actions ∧
      (∀ action, ∃ made,
        batch.Moves (action.documents index docType) made (session.act action).batch) ∧
      (∀ fault, (batch.flush session.clock).1 = .error fault →
        (batch.flush session.clock).2.documents = batch.documents ∧
        (batch.flush session.clock).2.lastFlush = batch.lastFlush) ∧
      ∀ attempts,
        let after := (batch.snapshot session.clock attempts).1
        (batch.HasReturned session.clock attempts ↔ after.documents = []) ∧
        (batch.documents = [] → after = batch) ∧
        (batch.documents ≠ [] → ∀ k, RefusesNext k session.forget.batch.endpoint →
          after.calls.length = batch.calls.length + min attempts (k + 1) ∧
          (batch.HasReturned session.clock attempts ↔ k < attempts))) ∧
    (∀ (bulk : BulkFile) (attempts : Nat),
      let session := logged index docType size maxAge start actions bulk
      let after := (session.batch.snapshot session.clock attempts).1
      (bulk.file.pending = [] → session.batch.HasReturned session.clock attempts →
        (∀ call ∈ after.calls, call.Succeeds) →
        after.endpoint.endpoint.file.content =
          bulk.file.content ++ BulkFile.text (brought index docType actions)) ∧
      (bulk.file.Takes → 0 < attempts →
        session.batch.HasReturned session.clock attempts ∧ ∀ call ∈ after.calls, call.Succeeds)) := by
  constructor
  · intro ω _ endpoint session batch
    obtain ⟨htaken, hindex, hdocType⟩ := taken_logged index docType size maxAge start actions endpoint
    refine ⟨(run_forget _ actions).symm, htaken, ?_, ?_, ?_⟩
    · intro action
      have hmoves := session.moves_act action
      rwa [show session.batch.index = index from hindex,
        show session.batch.docType = docType from hdocType] at hmoves
    · intro fault hfault
      exact Batch.flush_error (Prod.ext hfault rfl)
    · intro attempts after
      have hreturned := batch.hasReturned_iff session.clock attempts
      refine ⟨hreturned, fun hnone => Batch.flushUntilEmpty_of_none _ hnone .., ?_⟩
      intro hsome k hrefuses
      obtain ⟨hcalls, hempty⟩ := Batch.flushUntilEmpty_refuses session.clock hsome hrefuses attempts 0
      exact ⟨hcalls, hreturned.trans hempty⟩
  · intro bulk attempts session after
    have hreturned := session.batch.hasReturned_iff session.clock attempts
    constructor
    · intro hpending hdone
      exact file_logged hpending (hreturned.mp hdone)
    · intro htakes hattempts
      obtain ⟨hnone, hall⟩ := accepts_logged htakes hattempts
      exact ⟨hreturned.mpr hnone, hall⟩

/-- An endpoint that refuses the document when it is brought and once more at the checkpoint, and a file
that takes two documents. -/
theorem conserves_documents_two_refusals :
    (let session := logged "i" "t" 1 0 0 [.invoke "a"] ({ refusals := [true, true] } : BulkRecorder)
     session.batch.documents = [⟨"i", "t", "a"⟩] ∧
      (session.batch.snapshot session.clock 5).1.calls.length = session.batch.calls.length + 2) ∧
    (let session := logged "i" "t" 3 9 0 [.invoke "a", .clock 9, .invoke "b"]
        (⟨["bulk"], { content := [] }⟩ : BulkFile)
     (session.batch.snapshot session.clock 1).1.endpoint.endpoint.file.content =
        BulkFile.text [⟨"i", "t", "a"⟩, ⟨"i", "t", "b"⟩]) := by
  constructor
  · intro session
    obtain ⟨-, -, -, -, hsnapshot⟩ := (conserves_documents "i" "t" 1 0 0 [.invoke "a"]).1
      ({ refusals := [true, true] } : BulkRecorder)
    have hdocuments : session.batch.documents = [⟨"i", "t", "a"⟩] := by rfl
    have hrefuses : RefusesNext 1 session.forget.batch.endpoint := by
      intro documents
      exact ⟨⟨_, rfl⟩, fun documents' => rfl⟩
    exact ⟨hdocuments, ((hsnapshot 5).2.2 (by rw [hdocuments]; simp) 1 hrefuses).1⟩
  · intro session
    obtain ⟨hcontent, hreturns⟩ := (conserves_documents "i" "t" 3 9 0
      [.invoke "a", .clock 9, .invoke "b"]).2 ⟨["bulk"], { content := [] }⟩ 1
    obtain ⟨hreturned, hall⟩ := hreturns ⟨rfl, rfl⟩ (by decide)
    exact hcontent rfl hreturned hall

end BatchSession

end EventReplay
