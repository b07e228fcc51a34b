import EventReplay.Proofs.Balance

/-!
# The course of a replay

Seen from its source and its watermark, a replay does little: it takes an event from the source, hands
it to the sink, settles a watermark, or none of these. `Replay.Course` says so of every step
(`Replay.Balanced.course`), with what the step does to the event that comes next, to the times that are
under way, and to the watermark that was settled last.
-/

set_option autoImplicit false

namespace EventReplay

/-! ## What is to come and what is under way -/

theorem Hook.underWay_onTracker {tracker : Tracker} {times : List Int} (h : tracker.Holds times)
    (hook : Hook) {t : Int} (ht : t ∈ timesOf (hook.onTracker tracker).outstanding) :
    t ∈ timesOf tracker.outstanding := by
  cases hook with
  | settle outbound =>
      simp only [Hook.onTracker, Tracker.complete] at ht
      cases hout : countOut outbound tracker.outstanding with
      | none => simpa [hout] using ht
      | some rest =>
          obtain ⟨hperm, -, -⟩ := timesOf_countOut h.wellCounted hout
          simp only [hout] at ht
          exact hperm.mem_iff.mpr (.tail _ ht)
  | _ => exact ht

theorem Hook.current_onTracker (hook : Hook) (tracker : Tracker) :
    (hook.onTracker tracker).current = tracker.current := by
  cases hook with
  | settle outbound => exact Tracker.current_complete ..
  | _ => rfl

theorem Hook.config_onTracker (hook : Hook) (tracker : Tracker) :
    (hook.onTracker tracker).config = tracker.config := by
  cases hook with
  | settle outbound =>
      simp only [Hook.onTracker, Tracker.complete]
      split <;> rfl
  | _ => rfl

namespace Replay

variable {σ : Type}

/-- The outbound times of the events that are under way. -/
def underWay (r : Replay σ) : List Int :=
  timesOf r.tracker.outstanding ++ r.stage.untracked.map Dispatch.outbound

/-- What a step does, seen from the source and the watermark. -/
inductive Course (r : Replay σ) [EventSource σ] (action : ReplayAction) (r' : Replay σ) : Prop where
  | quiet (hands : r.hands action = none) (settles : r.settles action = none)
      (source : r'.source = r.source) (coming : r'.stage.coming = r.stage.coming)
      (asksAgain : r'.stage.asksAgain = r.stage.asksAgain)
      (current : r'.tracker.current = r.tracker.current)
      (underWay : ∀ t ∈ r'.underWay, t ∈ r.underWay)
      (reporting : ∀ next now horizon, r'.stage = .reporting next now horizon → r'.stage = r.stage)
  | hand (moment : Moment) (event : Event) (produce : action = .produce moment)
      (stage : r.stage = .holding event)
      (hands : r.hands action = some ⟨r.nextHandle, event, r.outbound event moment.now⟩)
      (settles : r.settles action = none) (source : r'.source = r.source)
      (stage' : r'.stage = .tracking event r.nextHandle (r.outbound event moment.now))
      (tracker : r'.tracker = r.tracker)
  | pull (hands : r.hands action = none) (settles : r.settles action = none)
      (stage : r.stage = .pulling) (source : r'.source = (EventSource.next r.source).source)
      (stage' : (∃ next, (EventSource.next r.source).answer = .ok next ∧ r'.stage = .observing next) ∨
        ∃ fault, (EventSource.next r.source).answer = .error fault ∧
          r'.stage = .ended (.error (.source fault)))
      (tracker : r'.tracker = r.tracker)
  | settle (moment : Moment) (next : Option Event) (horizon : Option Int)
      (produce : action = .produce moment)
      (stage : r.stage = .observing next ∧
          horizon = (next.map fun event => r.outbound event moment.now) ∨
        (∃ now, r.stage = .reporting next now horizon) ∨
        r.stage = .closing ∧ next = none ∧ horizon = none)
      (hands : r.hands action = none)
      (settles : r.settles action = none ∨ r.settles action = (r.tracker.settle horizon).1)
      (source : r'.source = r.source) (coming : r'.stage.coming = next.toList)
      (asksAgain : r'.stage.asksAgain = next.isSome)
      (current : r'.tracker.current = (r.settles action).or r.tracker.current)
      (underWay : r'.underWay = r.underWay)
      (reporting : ∀ next' now horizon', r'.stage = .reporting next' now horizon' →
        r'.stage = .reporting next moment.now horizon ∧
        horizon = next.map fun event => r.outbound event moment.now)

variable {r r' : Replay σ} {ds : List Dispatch}

/-! ## Telling and registering -/

theorem Stage.Registers.course {stage stage' : Stage} (h : Stage.Registers stage stage') :
    stage'.coming = stage.coming ∧ stage'.asksAgain = stage.asksAgain ∧
    ∀ next now horizon, stage' = .reporting next now horizon → stage' = stage := by
  cases h with
  | none => exact ⟨rfl, rfl, fun _ _ _ _ => rfl⟩
  | one => exact ⟨rfl, rfl, by rintro _ _ _ ⟨⟩⟩

theorem Balanced.course_turn [EventSource σ] (h : Balanced r ds) {action : ReplayAction}
    (hhands : r.hands action = none) (hsettles : r.settles action = none) (ht : Turn r r') :
    Course r action r' := by
  obtain ⟨permits, -, hbooks⟩ := h.books
  cases ht with
  | quiet completions tellings stage heq hregisters =>
      obtain ⟨hcoming, hagain, hreporting⟩ := hregisters.course
      subst heq
      refine .quiet hhands hsettles rfl hcoming hagain rfl ?_ hreporting
      intro t ht
      simpa [underWay, hregisters.untracked] using ht
  | ran tellings stage handle outcome hook hooks heq hregisters =>
      obtain ⟨hcoming, hagain, hreporting⟩ := hregisters.course
      rw [runHook_eq] at heq
      subst heq
      refine .quiet hhands hsettles rfl hcoming hagain (hook.current_onTracker _) ?_ hreporting
      intro t ht
      simp only [underWay, List.mem_append, hregisters.untracked] at ht ⊢
      exact ht.imp_left (hook.underWay_onTracker hbooks.holds)

/-! ## Every step -/

theorem Marked.underWay {tracker : Tracker} {marked : Replay σ} {marker : Option Watermark}
    (hm : Marked { r with tracker } marked marker) (hsame : Tracker.SameTimes r.tracker tracker)
    (huntracked : r.stage.untracked = []) {stage : Stage} (huntracked' : stage.untracked = []) :
    underWay { marked with stage } = r.underWay := by
  have htracker : marked.tracker = tracker := hm.tracker
  simp only [Replay.underWay, huntracked, huntracked', htracker, hsame.outstanding]

variable [EventSource σ]

/-- Only the clock goes on. -/
theorem Course.rest {action : ReplayAction} (hhands : r.hands action = none)
    (hsettles : r.settles action = none) : Course r action r :=
  .quiet hhands hsettles rfl rfl rfl rfl (fun _ => id) (fun _ _ _ _ => rfl)

/-- The producer goes on to another stage, with the same event in its hands. -/
theorem Course.move {action : ReplayAction} (hhands : r.hands action = none)
    (hsettles : r.settles action = none) (hsource : r'.source = r.source)
    (htracker : r'.tracker = r.tracker) (hcoming : r'.stage.coming = r.stage.coming)
    (hagain : r'.stage.asksAgain = r.stage.asksAgain) (huntracked : r'.stage.untracked = [])
    (hreporting : ∀ next now horizon, r'.stage ≠ .reporting next now horizon) :
    Course r action r' := by
  refine .quiet hhands hsettles hsource hcoming hagain (by rw [htracker]) ?_ ?_
  · intro t ht
    simp only [underWay, htracker, huntracked, List.map_nil, List.append_nil] at ht
    exact List.mem_append_left _ ht
  · intro next now horizon hstage
    exact absurd hstage (hreporting next now horizon)

theorem course_observing {next : Option Event} {moment : Moment} {tracker : Tracker}
    {marked : Replay σ} {marker : Option Watermark} (hstage : r.stage = .observing next)
    (he : Tracker.Emission r.tracker tracker moment.now (r.settles (.produce moment)) marker)
    (hm : Marked { r with tracker } marked marker) :
    Course r (.produce moment) { marked with
      stage := .reporting next moment.now (next.map fun event => r.outbound event moment.now) } := by
  have hsettles : r.settles (.produce moment) = if r.tracker.isDue moment.now then
      (r.tracker.settle (next.map fun event => r.outbound event moment.now)).1 else none := by
    simp only [settles, hstage]
  have hcurrent : marked.tracker.current = (r.settles (.produce moment)).or r.tracker.current := by
    rw [hm.tracker]
    exact he.current
  refine .settle moment next _ rfl (.inl ⟨hstage, rfl⟩) (by simp only [hands, hstage]) ?_ hm.source rfl
    ?_ hcurrent (hm.underWay he.same (by rw [hstage]; rfl) rfl) ?_
  · rw [hsettles]
    split
    · exact .inr rfl
    · exact .inl rfl
  · cases next <;> rfl
  · rintro _ _ _ ⟨⟩
    exact ⟨rfl, rfl⟩

theorem course_reporting {next : Option Event} {moment : Moment} {now : Int} {horizon : Option Int}
    (hstage : r.stage = .reporting next now horizon)
    (hgoes : (∃ event, next = some event ∧ r'.stage = .pacing event) ∨
      next = none ∧ ∃ ticket, r'.stage = .draining ticket)
    (hsource : r'.source = r.source) (htracker : r'.tracker = (r.tracker.settle horizon).2) :
    Course r (.produce moment) r' := by
  have hsettles : r.settles (.produce moment) = (r.tracker.settle horizon).1 := by
    simp only [settles, hstage]
  -- a tracker that settles nothing has settled nothing before
  have hcurrent : (r.tracker.settle horizon).2.current =
      (r.tracker.settle horizon).1.or r.tracker.current := by
    cases hw : (r.tracker.settle horizon).1 with
    | none => exact hw.trans (Tracker.settle_none hw).1.symm
    | some w => exact hw
  have huntracked : r.stage.untracked = [] := by rw [hstage]; rfl
  obtain ⟨huntracked', hcoming, hagain, hreporting⟩ : r'.stage.untracked = [] ∧
      r'.stage.coming = next.toList ∧ r'.stage.asksAgain = next.isSome ∧
      ∀ next' now' horizon', r'.stage ≠ .reporting next' now' horizon' := by
    rcases hgoes with ⟨event, rfl, hpacing⟩ | ⟨rfl, ticket, hdraining⟩
    · exact hpacing ▸ ⟨rfl, rfl, rfl, by simp⟩
    · exact hdraining ▸ ⟨rfl, rfl, rfl, by simp⟩
  refine .settle moment next horizon rfl (.inr (.inl ⟨now, hstage⟩)) (by simp only [hands, hstage])
    (.inr hsettles) hsource hcoming hagain ?_ ?_ ?_
  · rw [htracker, hsettles, hcurrent]
  · simp only [underWay, huntracked, huntracked', htracker, Tracker.settle]
  · intro next' now' horizon' heq
    exact absurd heq (hreporting next' now' horizon')

theorem course_closing {moment : Moment} {tracker : Tracker} {marked : Replay σ}
    {marker : Option Watermark} (hstage : r.stage = .closing)
    (he : Tracker.Emission r.tracker tracker moment.now (r.settles (.produce moment)) marker)
    (hm : Marked { r with tracker } marked marker) :
    Course r (.produce moment) { marked with stage := .flushing } := by
  have hsettles : r.settles (.produce moment) = (r.tracker.settle none).1 := by
    simp only [settles, hstage]
  have hcurrent : marked.tracker.current = (r.settles (.produce moment)).or r.tracker.current := by
    rw [hm.tracker]
    exact he.current
  exact .settle moment none none rfl (.inr (.inr ⟨hstage, rfl, rfl⟩)) (by simp only [hands, hstage])
    (.inr hsettles) hm.source rfl rfl hcurrent (hm.underWay he.same (by rw [hstage]; rfl) rfl)
    (by rintro _ _ _ ⟨⟩)

theorem Balanced.course_of_transition (h : Balanced r ds) {action : ReplayAction}
    {effects : List Effect} (ht : Transition r action r' effects) : Course r action r' := by
  cases ht with
  | rest hsilent heq =>
      subst heq
      exact .rest hsilent.hands hsilent.settles
  | turn hsilent hturn => exact h.course_turn hsilent.hands hsilent.settles hturn
  | move gate tally lag statistics metrics nextTicket stage hsilent hgoes heq =>
      subst heq
      exact .move hsilent.hands hsilent.settles rfl rfl hgoes.coming hgoes.asksAgain hgoes.untracked.2
        hgoes.ne_reporting
  | hand moment event hproduce hstage heq =>
      subst hproduce heq
      exact .hand moment event rfl hstage (by simp only [hands, hstage]) (by simp only [settles, hstage])
        rfl rfl rfl
  | track moment event handle outbound hproduce hstage heq =>
      subst hproduce heq
      refine .quiet (by simp only [hands, hstage]) (by simp only [settles, hstage]) rfl
        (by rw [hstage]; rfl) (by rw [hstage]; rfl) rfl ?_ (by rintro _ _ _ ⟨⟩)
      -- the time of the event moves from the producer into the tracker
      intro t ht
      simp only [underWay, hstage, Stage.untracked, List.map_nil, List.append_nil] at ht ⊢
      rcases List.mem_cons.mp ((timesOf_countIn outbound _).mem_iff.mp ht) with rfl | ht
      · simp
      · simp [ht]
  | pull stage' hsilent hstage hanswer heq =>
      subst heq
      exact .pull hsilent.hands hsilent.settles hstage rfl hanswer rfl
  | observe moment next tracker marked hproduce hstage hemission hmarked heq =>
      subst hproduce heq
      exact course_observing hstage hemission hmarked
  | report moment next now horizon gate statistics metrics nextTicket stage' line notices hproduce hstage
      hgoes heq =>
      subst hproduce heq
      exact course_reporting hstage hgoes rfl rfl
  | drain ticket hsilent hstage hready heq =>
      subst heq
      exact .move hsilent.hands hsilent.settles rfl rfl (by rw [hstage]; rfl) (by rw [hstage]; rfl) rfl
        (by rintro _ _ _ ⟨⟩)
  | close moment tracker marked hproduce hstage hemission hmarked heq =>
      subst hproduce heq
      exact course_closing hstage hemission hmarked
  | finish moment metrics hsilent hflushed hstage heq =>
      subst heq
      exact .move hsilent.hands hsilent.settles rfl rfl (by rw [hstage]; rfl) (by rw [hstage]; rfl) rfl
        (by rintro _ _ _ ⟨⟩)

theorem Balanced.course (h : Balanced r ds) (action : ReplayAction) :
    Course r action (r.act action).1 :=
  h.course_of_transition (h.transition action)

/-! ## What no step changes -/

/-- What stays as it was from start to end. -/
structure Fixed (r r' : Replay σ) : Prop where
  plan : r'.plan = r.plan
  shards : r'.shards = r.shards
  start : r'.start = r.start
  pace : r'.pace = r.pace
  config : r'.tracker.config = r.tracker.config

omit [EventSource σ] in
theorem Fixed.trans {r'' : Replay σ} (h : Fixed r r') (h' : Fixed r' r'') : Fixed r r'' :=
  ⟨h'.plan.trans h.plan, h'.shards.trans h.shards, h'.start.trans h.start, h'.pace.trans h.pace,
    h'.config.trans h.config⟩

omit [EventSource σ] in
theorem Fixed.outbound (h : Fixed r r') : r'.outbound = r.outbound := by
  funext event now
  simp only [Replay.outbound, h.plan, h.start, h.pace]

omit [EventSource σ] in
theorem Turn.fixed (ht : Turn r r') : Fixed r r' := by
  cases ht with
  | quiet completions tellings stage heq => subst heq; exact ⟨rfl, rfl, rfl, rfl, rfl⟩
  | ran tellings stage handle outcome hook hooks heq =>
      rw [runHook_eq] at heq
      subst heq
      exact ⟨rfl, rfl, rfl, rfl, hook.config_onTracker _⟩

theorem Transition.fixed {action : ReplayAction} {effects : List Effect}
    (ht : Transition r action r' effects) : Fixed r r' := by
  cases ht with
  | turn _ hturn => exact hturn.fixed
  | observe moment next tracker marked _ _ hemission hmarked heq =>
      rw [heq, hmarked.eq]
      exact ⟨rfl, rfl, rfl, rfl, hemission.same.config⟩
  | close moment tracker marked _ _ hemission hmarked heq =>
      rw [heq, hmarked.eq]
      exact ⟨rfl, rfl, rfl, rfl, hemission.same.config⟩
  | _ =>
      subst r'
      exact ⟨rfl, rfl, rfl, rfl, rfl⟩

theorem Balanced.fixed (h : Balanced r ds) (action : ReplayAction) : Fixed r (r.act action).1 :=
  (h.transition action).fixed

theorem Balanced.fixed_follow (h : Balanced r ds) (actions : List ReplayAction) :
    Fixed r (r.follow actions).1 := by
  induction actions generalizing r ds with
  | nil => exact ⟨rfl, rfl, rfl, rfl, rfl⟩
  | cons action actions ih => exact (h.fixed action).trans (ih (h.act action))

end Replay

end EventReplay
