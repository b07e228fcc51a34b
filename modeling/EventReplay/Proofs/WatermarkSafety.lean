import EventReplay.Proofs.Announcements

/-!
# Watermarks are safe

`Replay.Ordered` is the invariant that makes watermarks safe, while events come in the order of their
times and clocks do not run backwards: no event to come will go out before one that is under way, and
the watermark that was settled last is below the outbound time of every event under way and of every
event to come, whenever that is handed over. Whatever is settled keeps it (`Replay.Ordered.act`).
-/

set_option autoImplicit false

namespace EventReplay

theorem AdaptTime.outbound_mono (policy : AdaptTime) (start origin : Int) {s t m n : Int} (hst : s ≤ t)
    (hmn : m ≤ n) : policy.outbound start origin s m ≤ policy.outbound start origin t n := by
  cases policy with
  | unchanged => exact hst
  | invocation =>
      have hsub : Millis.sub s origin ≤ Millis.sub t origin := Millis.clamp_mono (by omega)
      exact Millis.clamp_mono (by omega)
  | ingestion => exact hmn

/-- The reading of the wall clock at an action of the producer. -/
def ReplayAction.reading : ReplayAction → Option Int
  | .produce moment => some moment.now
  | _ => none

/-- The readings of the wall clock in a schedule, in order. -/
def readings (actions : List ReplayAction) : List Int := actions.filterMap ReplayAction.reading

theorem readings_append (before after : List ReplayAction) :
    readings (before ++ after) = readings before ++ readings after :=
  List.filterMap_append

namespace Replay

variable {σ : Type}

theorem outbound_mono (r : Replay σ) {e e' : Event} {m n : Int} (he : e.timestamp ≤ e'.timestamp)
    (hmn : m ≤ n) : r.outbound e m ≤ r.outbound e' n :=
  AdaptTime.outbound_mono _ _ _ he hmn

/-- The order of the times under way, the watermark, and the times of the events to come, from a
reading of the clock on. -/
structure Ordered (r : Replay σ) (rest : List Event) (now : Int) : Prop where
  sorted : rest.Pairwise fun e e' => e.timestamp ≤ e'.timestamp
  after : ∀ t ∈ r.underWay, ∀ e ∈ rest, ∀ n, now ≤ n → t ≤ r.outbound e n
  ahead : ∀ w, r.tracker.current = some w → ∀ e ∈ rest, ∀ n, now ≤ n →
    Millis.earliest < r.outbound e n → w < r.outbound e n
  below : ∀ w, r.tracker.current = some w → ∀ t ∈ r.underWay, Millis.earliest < t → w < t
  horizon : ∀ next n horizon, r.stage = .reporting next n horizon →
    n ≤ now ∧ horizon = next.map fun event => r.outbound event n

variable {r : Replay σ} {ds handed : List Dispatch} {events : List Event} {rest : List Event} {now : Int}

/-- What is allowed next to the events to come is below all of them. -/
theorem Ordered.candidate_lt_coming (hb : Balanced r ds) (h : Ordered r rest now) {horizon w : Int}
    (hw : r.tracker.candidate (some horizon) = some w) {e e' : Event} {m n : Int} (he : e' ∈ rest)
    (hle : e.timestamp ≤ e'.timestamp) (hm : m ≤ n) (hnow : now ≤ n)
    (hhorizon : horizon = r.outbound e m) (hmin : Millis.earliest < r.outbound e' n) :
    w < r.outbound e' n := by
  obtain ⟨permits, -, hbooks⟩ := hb.books
  refine hbooks.holds.candidate_lt_of_le hw ?_ ?_ hmin
  · intro t ht
    exact h.after t (List.mem_append_left _ (hbooks.holds.perm.mem_iff.mpr ht)) e' he n hnow
  · rw [hhorizon]
    exact r.outbound_mono hle hm

/-- A watermark is below the events that come from a reading of the clock on and below all times under
way, where these are above the earliest time of all. -/
structure Clears (r : Replay σ) (rest : List Event) (now w : Int) : Prop where
  coming : ∀ e ∈ rest, ∀ n, now ≤ n → Millis.earliest < r.outbound e n → w < r.outbound e n
  underWay : ∀ t ∈ r.underWay, Millis.earliest < t → w < t

theorem Ordered.clears (h : Ordered r rest now) {now' w : Int} (hnow : now ≤ now')
    (hw : r.tracker.current = some w) : Clears r rest now' w :=
  ⟨fun e he n hn => h.ahead w hw e he n (hnow.trans hn), h.below w hw⟩

theorem Ordered.settle (hb : Balanced r ds) (h : Ordered r rest now) {next : Option Event} {m : Int}
    {left : List Event} {w : Int} (hrest : rest = next.toList ++ left)
    (hleft : next = none → left = []) (huntracked : r.stage.untracked = []) {now' : Int}
    (hm : m ≤ now') (hnow : now ≤ now')
    (hw : (r.tracker.settle (next.map fun event => r.outbound event m)).1 = some w) :
    Clears r rest now' w := by
  obtain ⟨permits, -, hbooks⟩ := hb.books
  -- either nothing new is allowed, or what the tracker and the next event both allow
  obtain ⟨hcurrent | hcandidate, -⟩ := Tracker.settle_cases hw
  · exact h.clears hnow hcurrent
  · constructor
    · intro e' he n hn hmin
      cases next with
      | none => simp [hrest, hleft rfl] at he
      | some e =>
          have hle : e.timestamp ≤ e'.timestamp := by
            have hsorted := h.sorted
            rw [hrest] at hsorted he
            rcases List.mem_cons.mp he with rfl | he
            · exact Int.le_refl _
            · exact List.rel_of_pairwise_cons hsorted he
          exact h.candidate_lt_coming hb hcandidate he hle (hm.trans hn) (hnow.trans hn) rfl hmin
    · intro t ht hmin
      simp only [Replay.underWay, huntracked, List.map_nil, List.append_nil] at ht
      exact hbooks.holds.candidate_lt_of_mem hcandidate (hbooks.holds.perm.mem_iff.mp ht) hmin

/-! ## What a step does to the order -/

/-- The clock goes on, times under way may go, and whatever watermark there is clears what is left. -/
theorem Ordered.advance (h : Ordered r rest now) {r' : Replay σ} {now' : Int} (hnow : now ≤ now')
    (hout : r'.outbound = r.outbound) (hway : ∀ t ∈ r'.underWay, t ∈ r.underWay)
    (hclears : ∀ w, r'.tracker.current = some w → Clears r rest now' w)
    (hhorizon : ∀ next n horizon, r'.stage = .reporting next n horizon →
      n ≤ now' ∧ horizon = next.map fun event => r.outbound event n) : Ordered r' rest now' := by
  refine ⟨h.sorted, ?_, ?_, ?_, ?_⟩
  · intro t ht e he n hn
    rw [hout]
    exact h.after t (hway t ht) e he n (hnow.trans hn)
  · intro w hw e he n hn
    rw [hout]
    exact (hclears w hw).coming e he n hn
  · intro w hw t ht
    exact (hclears w hw).underWay t (hway t ht)
  · rw [hout]
    exact hhorizon

/-- The first of the events to come goes out at a reading of the clock. -/
theorem Ordered.hand {event : Event} (h : Ordered r (event :: rest) now) {r' : Replay σ} {now' : Int}
    (hnow : now ≤ now') (hout : r'.outbound = r.outbound)
    (hway : ∀ t ∈ r'.underWay, t ∈ r.underWay ∨ t = r.outbound event now')
    (hcurrent : r'.tracker.current = r.tracker.current)
    (hreporting : ∀ next n horizon, r'.stage ≠ .reporting next n horizon) :
    Ordered r' rest now' := by
  have hsorted := h.sorted
  refine ⟨hsorted.of_cons, ?_, ?_, ?_, ?_⟩
  · intro t ht e he n hn
    rw [hout]
    rcases hway t ht with ht | rfl
    · exact h.after t ht e (.tail _ he) n (hnow.trans hn)
    · exact r.outbound_mono (List.rel_of_pairwise_cons hsorted he) hn
  · intro w hw e he n hn
    rw [hout]
    exact h.ahead w (hcurrent ▸ hw) e (.tail _ he) n (hnow.trans hn)
  · intro w hw t ht hmin
    rcases hway t ht with ht | rfl
    · exact h.below w (hcurrent ▸ hw) t ht hmin
    · exact h.ahead w (hcurrent ▸ hw) event (.head _) now' hnow hmin
  · intro next n horizon hstage
    exact absurd hstage (hreporting next n horizon)

/-- Where a watermark is settled, the producer holds the event that bounds it, and no other. -/
theorem settling_stage {moment : Moment} {next : Option Event} {horizon : Option Int}
    (hstage : r.stage = .observing next ∧
        horizon = (next.map fun event => r.outbound event moment.now) ∨
      (∃ now, r.stage = .reporting next now horizon) ∨
      r.stage = .closing ∧ next = none ∧ horizon = none) :
    r.stage.coming = next.toList ∧ r.stage.untracked = [] ∧
    (next = none → r.stage.asksAgain = false) := by
  rcases hstage with ⟨hstage, -⟩ | ⟨n, hstage⟩ | ⟨hstage, rfl, -⟩ <;> rw [hstage]
  · exact ⟨rfl, rfl, by rintro rfl; rfl⟩
  · exact ⟨rfl, rfl, by rintro rfl; rfl⟩
  · exact ⟨rfl, rfl, fun _ => rfl⟩

variable [EventSource σ]

/-- The event that the producer holds is the first of those to come. -/
theorem Supplied.drop_handed (h : Supplied r events handed) :
    ∃ left, events.drop handed.length = r.stage.coming ++ left ∧
      (r.stage.asksAgain = false → left = []) := by
  obtain ⟨left, hevents, hleft⟩ := h
  refine ⟨left, ?_, ?_⟩
  · rw [hevents, List.drop_left' (List.length_map ..)]
  · intro hagain
    rw [hagain] at hleft
    exact hleft

/-- Every step keeps the order, if the events are sorted and the clock does not run backwards. -/
theorem Ordered.act (hb : Balanced r ds) (hs : Supplied r events handed)
    (h : Ordered r (events.drop handed.length) now) (action : ReplayAction)
    (hnow : now ≤ action.reading.getD now) :
    Ordered (r.act action).1 (events.drop (handed ++ (r.hands action).toList).length)
      (action.reading.getD now) := by
  have hout : (r.act action).1.outbound = r.outbound := (hb.fixed action).outbound
  obtain ⟨left, hrest, hleft⟩ := hs.drop_handed
  cases hb.course action with
  -- nothing is settled, so what is ahead of the watermark stays ahead of it
  | quiet hhands hsettles hsource hcoming hagain hcurrent hway hreporting =>
      rw [hhands, Option.toList_none, List.append_nil]
      refine h.advance hnow hout hway (fun w hw => h.clears hnow (hcurrent ▸ hw)) ?_
      intro next n horizon hstage
      obtain ⟨hn, hhorizon⟩ := h.horizon next n horizon ((hreporting _ _ _ hstage).symm.trans hstage)
      exact ⟨hn.trans hnow, hhorizon⟩
  -- the first of the events to come joins those under way
  | hand moment event hproduce hstage hhands hsettles hsource hstage' htracker =>
      subst hproduce
      rw [hstage] at hrest
      have hrest' : events.drop (handed ++ (r.hands (.produce moment)).toList).length = left := by
        rw [hhands, List.length_append, ← List.drop_drop, hrest]
        rfl
      rw [hrest']
      rw [hrest] at h
      have hway : ∀ t ∈ (r.act (.produce moment)).1.underWay,
          t ∈ r.underWay ∨ t = r.outbound event moment.now := by
        intro t ht
        simpa [underWay, htracker, hstage', hstage, Stage.untracked] using ht
      exact h.hand hnow hout hway (by rw [htracker]) (by simp [hstage'])
  | pull hhands hsettles hstage hsource hstage' htracker =>
      rw [hhands, Option.toList_none, List.append_nil]
      refine h.advance hnow hout ?_ (fun w hw => h.clears hnow (htracker ▸ hw)) ?_
      · simp only [underWay, htracker, hstage]
        rcases hstage' with ⟨next, -, hnext⟩ | ⟨fault, -, hended⟩
        · simp [hnext, Stage.untracked]
        · simp [hended, Stage.untracked]
      · intro next n horizon hreporting
        rcases hstage' with ⟨next, -, hnext⟩ | ⟨fault, -, hended⟩
        · simp [hnext] at hreporting
        · simp [hended] at hreporting
  | settle moment next horizon hproduce hstage hhands hsettles hsource hcoming hagain hcurrent hway
      hreporting =>
      subst hproduce
      obtain ⟨hcomes, huntracked, hagain'⟩ := settling_stage hstage
      -- the horizon may have been read at an earlier step, for the progress line
      have hread : ∃ m ≤ moment.now, horizon = next.map fun event => r.outbound event m := by
        rcases hstage with ⟨-, hhorizon⟩ | ⟨n, hstage⟩ | ⟨-, rfl, rfl⟩
        · exact ⟨moment.now, Int.le_refl _, hhorizon⟩
        · obtain ⟨hn, hhorizon⟩ := h.horizon next n horizon hstage
          exact ⟨n, hn.trans hnow, hhorizon⟩
        · exact ⟨moment.now, Int.le_refl _, rfl⟩
      obtain ⟨m, hm, rfl⟩ := hread
      rw [hhands, Option.toList_none, List.append_nil]
      refine h.advance hnow hout (fun t ht => hway ▸ ht) ?_ ?_
      · intro w hw
        rw [hcurrent] at hw
        cases hset : r.settles (.produce moment) with
        | none =>
            rw [hset] at hw
            exact h.clears hnow hw
        | some v =>
            rw [hset] at hw hsettles
            obtain rfl : v = w := by simpa using hw
            rcases hsettles with hnone | hsettles
            · simp at hnone
            · exact h.settle hb (hcomes ▸ hrest) (fun hn => hleft (hagain' hn)) huntracked hm hnow
                hsettles.symm
      · intro next' n horizon' hstage'
        obtain ⟨heq, hhorizon⟩ := hreporting _ _ _ hstage'
        obtain ⟨rfl, rfl, rfl⟩ : next' = next ∧ n = moment.now ∧ horizon' = _ := by
          simpa using hstage'.symm.trans heq
        exact ⟨Int.le_refl _, hhorizon⟩

/-- Clocks that do not run backwards at first do not run backwards later. -/
theorem readings_cons {action : ReplayAction} {actions : List ReplayAction}
    (hclock : (now :: readings (action :: actions)).Pairwise (· ≤ ·)) :
    now ≤ action.reading.getD now ∧
    (action.reading.getD now :: readings actions).Pairwise (· ≤ ·) := by
  simp only [readings, List.filterMap_cons] at hclock ⊢
  cases hreading : action.reading with
  | none =>
      rw [hreading] at hclock
      exact ⟨Int.le_refl _, hclock⟩
  | some n =>
      rw [hreading] at hclock
      exact ⟨List.rel_of_pairwise_cons hclock (.head _), hclock.of_cons⟩

theorem Ordered.follow (hb : Balanced r ds) (hs : Supplied r events handed)
    (h : Ordered r (events.drop handed.length) now) (actions later : List ReplayAction)
    (hclock : (now :: readings (actions ++ later)).Pairwise (· ≤ ·)) :
    ∃ now', (now' :: readings later).Pairwise (· ≤ ·) ∧
      Ordered (r.follow actions).1 (events.drop (handed ++ r.dispatches actions).length) now' := by
  induction actions generalizing r ds handed now with
  | nil => exact ⟨now, hclock, by simpa [Replay.follow, dispatches] using h⟩
  | cons action actions ih =>
      obtain ⟨hnow, hclock⟩ := readings_cons hclock
      obtain ⟨now', hlater, hfollow⟩ :=
        ih (hb.act action) (hs.act hb action) (h.act hb hs action hnow) hclock
      exact ⟨now', hlater, by simpa [Replay.follow, dispatches] using hfollow⟩

/-! ## Settled watermarks -/

/-- The watermarks that a schedule settles, in order. -/
def settlements (r : Replay σ) : List ReplayAction → List Int
  | [] => []
  | action :: actions => (r.settles action).toList ++ (r.act action).1.settlements actions

theorem Balanced.settles_act (hb : Balanced r ds) {action : ReplayAction} {w : Int}
    (h : r.settles action = some w) :
    (r.act action).1.tracker.current = some w ∧ (r.act action).1.underWay = r.underWay ∧
    r.stage.untracked = [] ∧ ∀ c, r.tracker.current = some c → c ≤ w := by
  cases hb.course action with
  | quiet _ hsettles => simp [hsettles] at h
  | hand _ _ _ _ _ hsettles => simp [hsettles] at h
  | pull _ hsettles => simp [hsettles] at h
  | settle moment next horizon hproduce hstage hhands hsettles hsource hcoming hagain hcurrent hway =>
      refine ⟨by rw [hcurrent, h]; rfl, hway, ?_, ?_⟩
      · exact (settling_stage hstage).2.1
      · rcases hsettles with hnone | hsettles
        · simp [hnone] at h
        · exact (Tracker.settle_cases (hsettles.symm.trans h)).2.1

theorem Balanced.current_of_settles_none (hb : Balanced r ds) {action : ReplayAction}
    (h : r.settles action = none) : (r.act action).1.tracker.current = r.tracker.current := by
  cases hb.course action with
  | quiet _ _ _ _ _ hcurrent => exact hcurrent
  | hand _ _ _ _ _ _ _ _ htracker => rw [htracker]
  | pull _ _ _ _ _ htracker => rw [htracker]
  | settle _ _ _ _ _ _ _ _ _ _ hcurrent => rw [hcurrent, h]; rfl

/-- The watermark that was settled last never goes back. -/
theorem Balanced.current_act (hb : Balanced r ds) (action : ReplayAction) {c : Int}
    (h : r.tracker.current = some c) :
    ∃ c', (r.act action).1.tracker.current = some c' ∧ c ≤ c' := by
  cases hset : r.settles action with
  | some w =>
      obtain ⟨hcurrent, -, -, hle⟩ := hb.settles_act hset
      exact ⟨w, hcurrent, hle c h⟩
  | none => exact ⟨c, (hb.current_of_settles_none hset).trans h, Int.le_refl _⟩

theorem Balanced.current_follow (hb : Balanced r ds) (actions : List ReplayAction) {c : Int}
    (h : r.tracker.current = some c) :
    ∃ c', (r.follow actions).1.tracker.current = some c' ∧ c ≤ c' := by
  induction actions generalizing r ds c with
  | nil => exact ⟨c, h, Int.le_refl _⟩
  | cons action actions ih =>
      obtain ⟨c₁, h₁, hle₁⟩ := hb.current_act action h
      obtain ⟨c₂, h₂, hle₂⟩ := ih (hb.act action) h₁
      exact ⟨c₂, h₂, hle₁.trans hle₂⟩

/-- What a schedule has settled is at most what it has settled last. -/
theorem Balanced.settlements_le (hb : Balanced r ds) (actions : List ReplayAction) :
    ∀ v ∈ r.settlements actions, ∃ c, (r.follow actions).1.tracker.current = some c ∧ v ≤ c := by
  induction actions generalizing r ds with
  | nil => exact List.forall_mem_nil _
  | cons action actions ih =>
      intro v hv
      rcases List.mem_append.mp hv with hv | hv
      · obtain ⟨hcurrent, -⟩ := hb.settles_act (Option.mem_toList.mp hv)
        exact (hb.act action).current_follow actions hcurrent
      · exact ih (hb.act action) v hv

/-- The event that an action hands over goes out after the watermark that was settled last. -/
theorem Ordered.hands_above (hb : Balanced r ds) (hs : Supplied r events handed)
    (h : Ordered r (events.drop handed.length) now) {action : ReplayAction}
    (hnow : now ≤ action.reading.getD now) {c : Int} (hc : r.tracker.current = some c) :
    ∀ d ∈ r.hands action, Millis.earliest < d.outbound → c < d.outbound := by
  intro d hd hmin
  obtain ⟨left, hrest, -⟩ := hs.drop_handed
  cases hb.course action with
  | quiet hhands => simp [hhands] at hd
  | pull hhands => simp [hhands] at hd
  | settle _ _ _ _ _ hhands => simp [hhands] at hd
  | hand moment event hproduce hstage hhands =>
      subst hproduce
      obtain rfl : _ = d := by simpa [hhands] using hd
      rw [hstage] at hrest
      exact h.ahead c hc event (by rw [hrest]; exact .head _) moment.now hnow hmin

/-- Whatever is handed over later goes out after the watermark that was settled last. -/
theorem Ordered.dispatches_above (hb : Balanced r ds) (hs : Supplied r events handed)
    (h : Ordered r (events.drop handed.length) now) (actions : List ReplayAction)
    (hclock : (now :: readings actions).Pairwise (· ≤ ·)) {c : Int}
    (hc : r.tracker.current = some c) :
    ∀ d ∈ r.dispatches actions, Millis.earliest < d.outbound → c < d.outbound := by
  induction actions generalizing r ds handed now c with
  | nil => exact List.forall_mem_nil _
  | cons action actions ih =>
      obtain ⟨hnow, hclock⟩ := readings_cons hclock
      intro d hd hmin
      rcases List.mem_append.mp hd with hd | hd
      · exact h.hands_above hb hs hnow hc d (Option.mem_toList.mp hd) hmin
      · obtain ⟨c', hc', hle⟩ := hb.current_act action hc
        have hlt := ih (hb.act action) (hs.act hb action) (h.act hb hs action hnow) hclock hc' d hd hmin
        calc c ≤ c' := hle
          _ < d.outbound := hlt

theorem ordered_ofSource (source : σ)
    (hsorted : events.Pairwise fun e e' => e.timestamp ≤ e'.timestamp) (plan : ReplayPlan)
    (metrics : Option ReplayMetrics) (shards : Nat) (start : Moment) :
    Ordered (ofSource plan metrics shards start source).1 events start.now := by
  have hcurrent : (ofSource plan metrics shards start source).1.tracker.current = none := by
    unfold ofSource
    dsimp only
    split <;> rfl
  have hway : (ofSource plan metrics shards start source).1.underWay = [] := by
    unfold ofSource
    dsimp only
    split <;> rfl
  have hstage : ∀ next n horizon,
      (ofSource plan metrics shards start source).1.stage ≠ .reporting next n horizon := by
    unfold ofSource
    dsimp only
    split <;> simp
  refine ⟨hsorted, ?_, ?_, ?_, ?_⟩
  · simp [hway]
  · simp [hcurrent]
  · simp [hcurrent]
  · intro next n horizon heq
    exact absurd heq (hstage next n horizon)

omit [EventSource σ] in
/-- A dispatch without outcome is under way. -/
theorem Balanced.underWay_of_unresolved (hb : Balanced r ds) {d : Dispatch} (hd : d ∈ ds)
    (hout : r.outcomeOf d.handle = none) : d.outbound ∈ r.underWay := by
  obtain ⟨permits, -, hbooks⟩ := hb.books
  have howed := hbooks.untold d hd hout
  refine List.mem_append_left _ (hbooks.holds.perm.mem_iff.mpr ?_)
  exact List.mem_map_of_mem (List.mem_filter.mpr ⟨hd, by simpa using howed⟩)

/-- Whatever the plan and however outcomes come back, while events come in the order of their times and
clocks do not run backwards: every watermark that is settled, to be broadcast or to be shown, is no
earlier than those before it, and below the outbound time of every event that has no outcome and of
every event that is handed over later. -/
theorem watermark_safe {source : σ} (hyields : EventSource.Yields source events)
    (hsorted : events.Pairwise fun e e' => e.timestamp ≤ e'.timestamp) (plan : ReplayPlan)
    (metrics : Option ReplayMetrics) (shards : Nat) (start : Moment) (before : List ReplayAction)
    (action : ReplayAction) (after : List ReplayAction)
    (hclock : (start.now :: readings (before ++ action :: after)).Pairwise (· ≤ ·)) :
    let replay := (ofSource plan metrics shards start source).1
    let r := (replay.follow before).1
    (∀ first stream payload, .broadcast first stream payload ∈ (r.act action).2 →
      ∃ w now, r.settles action = some w ∧ payload = encodeWatermark ⟨w, now⟩) ∧
    (∀ text, .notice (.progress text) ∈ (r.act action).2 →
      .progress text ∈ (EventSource.next r.source).notices ∨
      ∃ statistics lag, text = Statistics.line statistics (r.settles action) lag) ∧
    ∀ w, r.settles action = some w →
      (∀ v ∈ replay.settlements before, v ≤ w) ∧
      (∀ d ∈ replay.dispatches before, r.outcomeOf d.handle = none →
        Millis.earliest < d.outbound → w < d.outbound) ∧
      ∀ d ∈ (r.act action).1.dispatches after, Millis.earliest < d.outbound → w < d.outbound := by
  intro replay r
  have hb₀ := balanced_ofSource plan metrics shards start source
  have hs₀ := supplied_ofSource hyields plan metrics shards start
  have hb := hb₀.follow before
  have hs := hs₀.follow hb₀ before
  obtain ⟨now, hlater, ho⟩ :=
    (ordered_ofSource source hsorted plan metrics shards start).follow hb₀ hs₀ before _ hclock
  obtain ⟨hnow, hafter⟩ := readings_cons hlater
  -- the settled watermark is measured against the order that holds after the action
  have ho' := ho.act hb hs action hnow
  have hhanded := hb₀.untracked_follow before
  refine ⟨fun _ _ _ h => hb.broadcast_act h, fun _ h => hb.progress_act h, ?_⟩
  intro w hw
  obtain ⟨hcurrent, hway, huntracked, hmono⟩ := hb.settles_act hw
  refine ⟨?_, ?_, ?_⟩
  · intro v hv
    obtain ⟨c, hc, hle⟩ := hb₀.settlements_le before v hv
    calc v ≤ c := hle
      _ ≤ w := hmono c hc
  · intro d hd hout hmin
    have hmem : d ∈ [] ++ replay.tracked before := by
      have hall := List.mem_append_right replay.stage.untracked hd
      rw [hhanded, huntracked, List.append_nil] at hall
      exact hall
    refine ho'.below w hcurrent d.outbound ?_ hmin
    rw [hway]
    exact hb.underWay_of_unresolved hmem hout
  · exact ho'.dispatches_above (hb.act action) (hs.act hb action) after hafter hcurrent

/-- Two events, the first of which has no outcome when the first progress line is due: the watermark is
just below it, and the second event goes out later. -/
theorem watermark_safe_two_events :
    let replay := (ofSource {} none 2 ⟨0, 100⟩ (EventQueue.mk [⟨10, "a", []⟩, ⟨20, "b", []⟩])).1
    let steps := List.replicate 11 (ReplayAction.produce ⟨1000000, 100⟩)
    let r := (replay.follow steps).1
    r.settles (.produce ⟨1000000, 100⟩) = some 9 ∧
    (r.act (.produce ⟨1000000, 100⟩)).1.dispatches steps = [⟨1, ⟨20, "b", []⟩, 20⟩] ∧
    (∀ d ∈ replay.dispatches steps, r.outcomeOf d.handle = none →
      Millis.earliest < d.outbound → 9 < d.outbound) ∧
    ∀ d ∈ (r.act (.produce ⟨1000000, 100⟩)).1.dispatches steps,
      Millis.earliest < d.outbound → 9 < d.outbound := by
  intro replay steps r
  have hsettles : r.settles (.produce ⟨1000000, 100⟩) = some 9 := by decide +kernel
  have hsafe := watermark_safe (EventQueue.yields [⟨10, "a", []⟩, ⟨20, "b", []⟩]) (by decide) {} none 2
    ⟨0, 100⟩ steps (.produce ⟨1000000, 100⟩) steps (by decide)
  exact ⟨hsettles, by decide +kernel, (hsafe.2.2 9 hsettles).2⟩

end Replay

end EventReplay
