import EventReplay.Json.Value
import EventReplay.Proofs.LexemeCut

/-!
# The two readers of a value

`skipValue` and `readValue` make the same moves. Lexemes that a value is skipped over (`Skips`) or read
from (`Reads`) are so whatever stands behind them, and what is read as a value is skipped as one
(`Reads.skips`). The room that a value needs is the depth to which it nests (`Reads.room`).
-/

set_option autoImplicit false

namespace EventReplay.Json

/-! ## Open containers -/

/-- The kind of an open container. -/
def Frame.bracket : Frame → Bracket
  | .array _ => .array
  | .object _ | .member _ _ => .object

/-- What may be needed inside an open container. -/
def Frame.Awaits : Frame → Need → Prop
  | .array _, need => need = .value ∨ need = .firstItem ∨ need = .moreItems
  | .object _, need => need = .firstKey ∨ need = .key ∨ need = .moreMembers
  | .member _ _, need => need = .colon ∨ need = .value

/-- What is needed goes with the open containers: each but the innermost waits for a value. -/
def Coherent : List Frame → Need → Prop
  | [], need => need = .value
  | frame :: frames, need => frame.Awaits need ∧ ∀ outer ∈ frames, outer.Awaits .value

/-- The values that an open container holds so far. -/
def Frame.values : Frame → List Value
  | .array items => items
  | .object members | .member _ members => members.map Prod.snd

/-- Where a token is allowed to make its move. -/
theorem move_ok {need : Need} {t : Token} {m : Move} (h : move need t = .ok m) :
    match m with
    | .scalar | .opening _ => need = .value ∨ need = .firstItem
    | .closing => need = .firstItem ∨ need = .moreItems ∨ need = .firstKey ∨ need = .moreMembers
    | .key => need = .firstKey ∨ need = .key
    | .separator next =>
      need = .moreItems ∧ next = .value ∨ need = .moreMembers ∧ next = .key ∨
        need = .colon ∧ next = .value := by
  cases need <;> cases t <;> simp [move, startValue, startKey] at h <;> subst h <;> simp

theorem isGood_of_move {need : Need} {t : Token} {m : Move} (h : move need t = .ok m) :
    t.isGood = true := by
  cases t <;> first | rfl | (cases need <;> simp [move, startValue, startKey] at h)

/-- What a move comes to, if at most `room` containers may be open. -/
inductive Builds (room : Nat) : List Frame → Token → Move → Progress → Prop
  | scalar {frames : List Frame} {t : Token} {v : Value} (h : scalarValue t = .ok v) :
    Builds room frames t .scalar (place v frames)
  | openArray {frames : List Frame} {t : Token} (h : frames.length < room) :
    Builds room frames t (.opening .array) (.within (.array [] :: frames) .firstItem)
  | openObject {frames : List Frame} {t : Token} (h : frames.length < room) :
    Builds room frames t (.opening .object) (.within (.object [] :: frames) .firstKey)
  | closeArray {items : List Value} {outer : List Frame} {t : Token} :
    Builds room (.array items :: outer) t .closing (place (.array items.reverse) outer)
  | closeObject {members : List (String × Value)} {outer : List Frame} {t : Token} :
    Builds room (.object members :: outer) t .closing (place (.object members.reverse) outer)
  | key {members : List (String × Value)} {outer : List Frame} {body : Bytes} {key : String}
    (h : textOf? body = some key) :
    Builds room (.object members :: outer) (.string body) .key
      (.within (.member key members :: outer) .colon)
  | separator {frames : List Frame} {t : Token} {next : Need} :
    Builds room frames t (.separator next) (.within frames next)

theorem build_eq_ok {room : Nat} {frames : List Frame} {t : Token} {m : Move} {progress : Progress} :
    build room frames t m = .ok progress ↔ Builds room frames t m progress := by
  constructor
  · intro h
    cases m with
    | scalar =>
      rw [build] at h
      split at h
      next v hv =>
        obtain rfl : place v frames = progress := by simpa using h
        exact .scalar hv
      next => simp at h
    | opening b =>
      cases b <;> rw [build] at h <;> split at h
      next hroom => exact Except.ok.inj h ▸ .openArray hroom
      next => simp at h
      next hroom => exact Except.ok.inj h ▸ .openObject hroom
      next => simp at h
    | closing =>
      cases frames with
      | nil => simp [build] at h
      | cons frame outer =>
        cases frame with
        | array items => exact Except.ok.inj h ▸ .closeArray
        | object members => exact Except.ok.inj h ▸ .closeObject
        | member key members => simp [build] at h
    | key =>
      cases frames with
      | nil => simp [build] at h
      | cons frame outer =>
        cases frame with
        | array items => simp [build] at h
        | member key members => simp [build] at h
        | object members =>
          cases t with
          | string body =>
            rw [build] at h
            split at h
            next key hkey => exact Except.ok.inj h ▸ .key hkey
            next => simp at h
          | _ => simp [build] at h
    | separator next => exact Except.ok.inj h ▸ .separator
  · rintro (hv | hroom | hroom | _ | _ | hkey | _)
    · rw [build, hv]
    · rw [build, if_pos hroom]
    · rw [build, if_pos hroom]
    · rfl
    · rfl
    · rw [build, hkey]
    · rfl

/-- A value is put into the container that waits for it. -/
theorem place_cases (v : Value) {frames : List Frame} (h : ∀ outer ∈ frames, outer.Awaits .value) :
    (frames = [] ∧ place v frames = .complete v) ∨
    ∃ frame outer frame', frames = frame :: outer ∧ frame'.bracket = frame.bracket ∧
      place v frames = .within (frame' :: outer) frame.bracket.more ∧
      frame'.Awaits frame.bracket.more ∧ frame'.values = v :: frame.values := by
  cases frames with
  | nil => exact .inl ⟨rfl, rfl⟩
  | cons frame outer =>
    cases frame with
    | array items => exact .inr ⟨_, _, .array (v :: items), rfl, rfl, rfl, .inr (.inr rfl), rfl⟩
    | object members => simpa [Frame.Awaits] using h _ List.mem_cons_self
    | member key members =>
      exact .inr ⟨_, _, .object ((key, v) :: members), rfl, rfl, rfl, .inr (.inr rfl), rfl⟩

/-! ## Runs -/

/-- Lexemes that complete a value inside the open brackets. -/
inductive Skips : List Bracket → Need → List Lexeme → Prop
  | last {opened : List Bracket} {need : Need} {l : Lexeme} {m : Move} (hm : move need l.token = .ok m)
    (hlast : advance opened m = none) : Skips opened need [l]
  | next {opened opened' : List Bracket} {need need' : Need} {l : Lexeme} {ls : List Lexeme} {m : Move}
    (hm : move need l.token = .ok m) (hnext : advance opened m = some (opened', need'))
    (h : Skips opened' need' ls) : Skips opened need (l :: ls)

theorem skipValue_eq_some {opened : List Bracket} {need : Need} {ls taken rest : List Lexeme} :
    skipValue opened need ls = some (taken, rest) ↔ ls = taken ++ rest ∧ Skips opened need taken := by
  constructor
  · intro h
    refine ⟨(append_of_skipValue h).symm, ?_⟩
    induction ls generalizing opened need taken with
    | nil => simp [skipValue] at h
    | cons l ls ih =>
      rw [skipValue] at h
      split at h
      · simp at h
      next m hm =>
        split at h
        next hlast =>
          obtain ⟨rfl, -⟩ : [l] = taken ∧ ls = rest := by simpa using h
          exact .last hm hlast
        next opened' need' hnext =>
          split at h
          · simp at h
          next taken' rest' hskip =>
            obtain ⟨rfl, rfl⟩ : l :: taken' = taken ∧ rest' = rest := by simpa using h
            exact .next hm hnext (ih hskip)
  · rintro ⟨rfl, h⟩
    induction h with
    | last hm hlast =>
      rw [List.singleton_append, skipValue, hm]
      simp only [hlast]
    | next hm hnext _ ih =>
      rw [List.cons_append, skipValue, hm]
      simp only [hnext, ih]

/-- Lexemes from which a value is read inside the open containers. -/
inductive Reads (room : Nat) (v : Value) : List Frame → Need → List Lexeme → Prop
  | last {frames : List Frame} {need : Need} {l : Lexeme} {m : Move} (hm : move need l.token = .ok m)
    (hlast : Builds room frames l.token m (.complete v)) : Reads room v frames need [l]
  | next {frames frames' : List Frame} {need need' : Need} {l : Lexeme} {ls : List Lexeme} {m : Move}
    (hm : move need l.token = .ok m) (hnext : Builds room frames l.token m (.within frames' need'))
    (h : Reads room v frames' need' ls) : Reads room v frames need (l :: ls)

theorem readValue_eq_ok {room : Nat} {frames : List Frame} {need : Need} {ls rest : List Lexeme}
    {v : Value} :
    readValue room frames need ls = .ok (v, rest) ↔
      ∃ taken, ls = taken ++ rest ∧ Reads room v frames need taken := by
  constructor
  · intro h
    induction ls generalizing frames need with
    | nil => simp [readValue] at h
    | cons l ls ih =>
      rw [readValue] at h
      split at h
      · simp at h
      next m hm =>
        split at h
        · simp at h
        next v' hb =>
          obtain ⟨rfl, rfl⟩ : v' = v ∧ ls = rest := by simpa using h
          exact ⟨[l], rfl, .last hm (build_eq_ok.mp hb)⟩
        next frames' need' hb =>
          obtain ⟨taken, rfl, hreads⟩ := ih h
          exact ⟨l :: taken, rfl, .next hm (build_eq_ok.mp hb) hreads⟩
  · rintro ⟨taken, rfl, h⟩
    induction h with
    | last hm hlast =>
      rw [List.singleton_append, readValue, hm]
      simp only [build_eq_ok.mpr hlast]
    | next hm hnext _ ih =>
      rw [List.cons_append, readValue, hm]
      simp only [build_eq_ok.mpr hnext, ih]

/-! ## Blanks in front -/

theorem Skips.dropGap {opened : List Bracket} {need : Need} {ls : List Lexeme}
    (h : Skips opened need ls) : Skips opened need (dropGap ls) := by
  cases h with
  | last hm hlast => exact .last hm hlast
  | next hm hnext h => exact .next hm hnext h

theorem Reads.dropGap {room : Nat} {v : Value} {frames : List Frame} {need : Need} {ls : List Lexeme}
    (h : Reads room v frames need ls) : Reads room v frames need (dropGap ls) := by
  cases h with
  | last hm hlast => exact .last hm hlast
  | next hm hnext h => exact .next hm hnext h

theorem Reads.of_dropGap {room : Nat} {v : Value} {frames : List Frame} {need : Need} {ls : List Lexeme}
    (h : Reads room v frames need (Json.dropGap ls)) : Reads room v frames need ls := by
  cases ls with
  | nil => exact h
  | cons l ls =>
    cases h with
    | last hm hlast => exact .last hm hlast
    | next hm hnext h => exact .next hm hnext h

/-! ## The same moves -/

/-- What reading has come to goes with where the grammar has got to. -/
def Progress.Matches : Progress → Option (List Bracket × Need) → Prop
  | .complete _, none => True
  | .within frames need, some (opened, need') =>
    Coherent frames need ∧ opened = frames.map Frame.bracket ∧ need' = need
  | _, _ => False

theorem place_matches (v : Value) {frames : List Frame} (h : ∀ outer ∈ frames, outer.Awaits .value) :
    (place v frames).Matches
      ((frames.map Frame.bracket).head?.map fun b => (frames.map Frame.bracket, b.more)) := by
  obtain ⟨rfl, hplace⟩ | ⟨frame, outer, frame', rfl, hbracket, hplace, hawaits, -⟩ := place_cases v h
  · rw [hplace]
    trivial
  · rw [hplace]
    refine ⟨⟨hawaits, fun F hF => h F (List.mem_cons_of_mem _ hF)⟩, ?_, rfl⟩
    rw [List.map_cons, List.map_cons, hbracket]

/-- Where a value may start, all open containers wait for one. -/
theorem Coherent.awaits {frames : List Frame} {need : Need} (hc : Coherent frames need)
    (hneed : need = .value ∨ need = .firstItem) : ∀ outer ∈ frames, outer.Awaits .value := by
  cases frames with
  | nil => simp
  | cons frame outer =>
    obtain ⟨hawaits, houter⟩ := hc
    rw [List.forall_mem_cons]
    refine ⟨?_, houter⟩
    cases frame with
    | array items => exact .inl rfl
    | object members => obtain rfl | rfl := hneed <;> simp [Frame.Awaits] at hawaits
    | member key members => exact .inr rfl

theorem Builds.matches {room : Nat} {frames : List Frame} {need : Need} {t : Token} {m : Move}
    {progress : Progress} (h : Builds room frames t m progress) (hc : Coherent frames need)
    (hm : move need t = .ok m) : progress.Matches (advance (frames.map Frame.bracket) m) := by
  have hneed := move_ok hm
  cases h with
  | scalar hv => exact place_matches _ (hc.awaits hneed)
  | openArray _ => exact ⟨⟨.inr (.inl rfl), hc.awaits hneed⟩, rfl, rfl⟩
  | openObject _ => exact ⟨⟨.inl rfl, hc.awaits hneed⟩, rfl, rfl⟩
  | closeArray => exact place_matches _ hc.2
  | closeObject => exact place_matches _ hc.2
  | key _ => exact ⟨⟨.inl rfl, hc.2⟩, rfl, rfl⟩
  | @separator frames t next =>
    refine ⟨?_, rfl, rfl⟩
    cases frames with
    | nil =>
      obtain rfl : need = .value := hc
      simp at hneed
    | cons frame outer =>
      refine ⟨?_, hc.2⟩
      have hawaits := hc.1
      cases frame <;> simp only [Frame.Awaits] at hawaits ⊢ <;> grind

theorem Builds.complete {room : Nat} {frames : List Frame} {need : Need} {t : Token} {m : Move}
    {v : Value} (h : Builds room frames t m (.complete v)) (hc : Coherent frames need)
    (hm : move need t = .ok m) : advance (frames.map Frame.bracket) m = none := by
  have hmatches := h.matches hc hm
  cases hadvance : advance (frames.map Frame.bracket) m with
  | none => rfl
  | some next =>
    rw [hadvance] at hmatches
    exact hmatches.elim

theorem Builds.within {room : Nat} {frames frames' : List Frame} {need need' : Need} {t : Token}
    {m : Move} (h : Builds room frames t m (.within frames' need')) (hc : Coherent frames need)
    (hm : move need t = .ok m) :
    Coherent frames' need' ∧
      advance (frames.map Frame.bracket) m = some (frames'.map Frame.bracket, need') := by
  have hmatches := h.matches hc hm
  cases hadvance : advance (frames.map Frame.bracket) m with
  | none =>
    rw [hadvance] at hmatches
    exact hmatches.elim
  | some next =>
    obtain ⟨opened, need₁⟩ := next
    rw [hadvance] at hmatches
    obtain ⟨hc', rfl, rfl⟩ := hmatches
    exact ⟨hc', rfl⟩

/-- What is read as a value is skipped as one. -/
theorem Reads.skips {room : Nat} {v : Value} {frames : List Frame} {need : Need} {ls : List Lexeme}
    (h : Reads room v frames need ls) (hc : Coherent frames need) :
    Skips (frames.map Frame.bracket) need ls := by
  induction h with
  | last hm hlast => exact .last hm (hlast.complete hc hm)
  | next hm hnext _ ih =>
    obtain ⟨hc', hadvance⟩ := hnext.within hc hm
    exact .next hm hadvance (ih hc')

/-! ## Tokens -/

theorem Skips.isGood {opened : List Bracket} {need : Need} {ls : List Lexeme}
    (h : Skips opened need ls) : ∀ l ∈ ls, l.token.isGood = true := by
  induction h with
  | last hm _ => simpa using isGood_of_move hm
  | next hm _ _ ih => exact List.forall_mem_cons.mpr ⟨isGood_of_move hm, ih⟩

/-- A string is a value or a key. -/
theorem Builds.says {room : Nat} {frames : List Frame} {need : Need} {body : Bytes} {m : Move}
    {progress : Progress} (h : Builds room frames (.string body) m progress)
    (hm : move need (.string body) = .ok m) : ∃ s, textOf? body = some s := by
  cases h with
  | scalar hv =>
    rw [scalarValue] at hv
    split at hv
    next s hs => exact ⟨s, hs⟩
    next => simp at hv
  | key hkey => exact ⟨_, hkey⟩
  | _ => cases need <;> simp [move, startValue, startKey] at hm

/-- The strings that a value is read from say texts. -/
theorem Reads.strings {room : Nat} {v : Value} {frames : List Frame} {need : Need} {ls : List Lexeme}
    (h : Reads room v frames need ls) :
    ∀ l ∈ ls, ∀ body, l.token = .string body → ∃ s, textOf? body = some s := by
  induction h with
  | last hm hlast =>
    rw [List.forall_mem_singleton]
    intro body hbody
    rw [hbody] at hm hlast
    exact hlast.says hm
  | next hm hnext _ ih =>
    refine List.forall_mem_cons.mpr ⟨?_, ih⟩
    intro body hbody
    rw [hbody] at hm hnext
    exact hnext.says hm

/-! ## Room -/

/-- At most so many containers stand one inside the other. -/
inductive Value.NestsWithin : Nat → Value → Prop
  | null {n : Nat} : NestsWithin n .null
  | bool {n : Nat} {b : Bool} : NestsWithin n (.bool b)
  | int {n : Nat} {t : Int} : NestsWithin n (.int t)
  | float {n : Nat} {x : Float} : NestsWithin n (.float x)
  | text {n : Nat} {s : String} : NestsWithin n (.text s)
  | array {n : Nat} {items : List Value} (h : ∀ v ∈ items, v.NestsWithin n) :
    NestsWithin (n + 1) (.array items)
  | object {n : Nat} {members : List (String × Value)} (h : ∀ m ∈ members, m.2.NestsWithin n) :
    NestsWithin (n + 1) (.object members)

/-- The open containers, with what they hold so far, fit into some room. -/
def Fits (room : Nat) : List Frame → Prop
  | [] => True
  | frame :: frames =>
    frames.length < room ∧ (∀ v ∈ frame.values, v.NestsWithin (room - (frames.length + 1))) ∧
      Fits room frames

/-- What reading has come to fits into some room. -/
def Progress.Fits (room : Nat) : Progress → Prop
  | .complete v => v.NestsWithin room
  | .within frames _ => Json.Fits room frames

theorem place_fits {room : Nat} {v : Value} {frames : List Frame}
    (h : ∀ outer ∈ frames, outer.Awaits .value) (hfits : (place v frames).Fits room) :
    Fits room frames ∧ v.NestsWithin (room - frames.length) := by
  obtain ⟨rfl, hplace⟩ | ⟨frame, outer, frame', rfl, -, hplace, -, hvalues⟩ := place_cases v h
  · rw [hplace] at hfits
    exact ⟨trivial, hfits⟩
  · rw [hplace] at hfits
    obtain ⟨hroom, hall, houter⟩ := hfits
    rw [hvalues, List.forall_mem_cons] at hall
    exact ⟨⟨hroom, hall.2, houter⟩, hall.1⟩

/-- If what a move comes to fits into some room, so does what was there before, and the move can be made
there. -/
theorem Builds.fits {room n : Nat} {frames : List Frame} {need : Need} {t : Token} {m : Move}
    {progress : Progress} (h : Builds room frames t m progress) (hc : Coherent frames need)
    (hm : move need t = .ok m) (hfits : progress.Fits n) :
    Fits n frames ∧ Builds n frames t m progress := by
  have hneed := move_ok hm
  cases h with
  | scalar hv => exact ⟨(place_fits (hc.awaits hneed) hfits).1, .scalar hv⟩
  | openArray _ => exact ⟨hfits.2.2, .openArray hfits.1⟩
  | openObject _ => exact ⟨hfits.2.2, .openObject hfits.1⟩
  | @closeArray items outer _ =>
    obtain ⟨houter, hnests⟩ := place_fits hc.2 hfits
    generalize hroom : n - outer.length = left at hnests
    cases hnests with
    | @array k _ hall =>
      refine ⟨⟨by omega, fun v hv => ?_, houter⟩, .closeArray⟩
      rw [show n - (outer.length + 1) = k by omega]
      exact hall v (List.mem_reverse.mpr hv)
  | @closeObject members outer _ =>
    obtain ⟨houter, hnests⟩ := place_fits hc.2 hfits
    generalize hroom : n - outer.length = left at hnests
    cases hnests with
    | @object k _ hall =>
      refine ⟨⟨by omega, fun v hv => ?_, houter⟩, .closeObject⟩
      rw [show n - (outer.length + 1) = k by omega]
      obtain ⟨m, hm, rfl⟩ := List.mem_map.mp hv
      exact hall m (List.mem_reverse.mpr hm)
  | key hkey => exact ⟨hfits, .key hkey⟩
  | separator => exact ⟨hfits, .separator⟩

theorem Reads.fits {room n : Nat} {v : Value} {frames : List Frame} {need : Need} {ls : List Lexeme}
    (h : Reads room v frames need ls) (hc : Coherent frames need) (hnests : v.NestsWithin n) :
    Fits n frames ∧ Reads n v frames need ls := by
  induction h with
  | last hm hlast =>
    obtain ⟨hfits, hbuilds⟩ := hlast.fits hc hm hnests
    exact ⟨hfits, .last hm hbuilds⟩
  | next hm hnext _ ih =>
    obtain ⟨hfits', hreads⟩ := ih (hnext.within hc hm).1
    obtain ⟨hfits, hbuilds⟩ := hnext.fits hc hm hfits'
    exact ⟨hfits, .next hm hbuilds hreads⟩

/-- A value that nests within some room is read there as in any other. -/
theorem Reads.room {room n : Nat} {v : Value} {ls : List Lexeme} (h : Reads room v [] .value ls)
    (hnests : v.NestsWithin n) : Reads n v [] .value ls := by
  have hc : Coherent [] .value := rfl
  exact (h.fits hc hnests).2

/-! ## Texts -/

/-- All texts in a value, but for the keys of its members, have less than so many bytes. -/
inductive Value.TextsBelow (n : Nat) : Value → Prop
  | null : TextsBelow n .null
  | bool {b : Bool} : TextsBelow n (.bool b)
  | int {t : Int} : TextsBelow n (.int t)
  | float {x : Float} : TextsBelow n (.float x)
  | text {s : String} (h : (Utf8.encode s).length < n) : TextsBelow n (.text s)
  | array {items : List Value} (h : ∀ v ∈ items, v.TextsBelow n) : TextsBelow n (.array items)
  | object {members : List (String × Value)} (h : ∀ m ∈ members, m.2.TextsBelow n) :
    TextsBelow n (.object members)

/-- What reading has come to holds short texts only. -/
def Progress.TextsBelow (n : Nat) : Progress → Prop
  | .complete v => v.TextsBelow n
  | .within frames _ => ∀ frame ∈ frames, ∀ v ∈ frame.values, v.TextsBelow n

theorem place_textsBelow {n : Nat} {v : Value} {frames : List Frame} (hv : v.TextsBelow n)
    (hframes : ∀ frame ∈ frames, ∀ w ∈ frame.values, w.TextsBelow n) :
    (place v frames).TextsBelow n := by
  unfold place
  split
  next items outer =>
    rw [List.forall_mem_cons] at hframes
    refine List.forall_mem_cons.mpr ⟨?_, hframes.2⟩
    exact List.forall_mem_cons.mpr ⟨hv, hframes.1⟩
  next key members outer =>
    rw [List.forall_mem_cons] at hframes
    refine List.forall_mem_cons.mpr ⟨?_, hframes.2⟩
    exact List.forall_mem_cons.mpr ⟨hv, hframes.1⟩
  next => exact hv

theorem signedScale_isFloat {negative : Bool} {significand : Nat} {exponent : Int} {v : Value}
    (h : signedScale negative significand exponent = some v) : ∃ x, v = .float x := by
  obtain ⟨x, -, rfl⟩ := Option.map_eq_some_iff.mp h
  exact ⟨_, rfl⟩

/-- A numeral names an integer or a floating-point number. -/
theorem value?_isNumber {n : Numeral} {v : Value} (h : n.value? = some v) :
    (∃ t, v = .int t) ∨ ∃ x, v = .float x := by
  have hint {t : Int} (h : some (Value.int t) = some v) : (∃ t, v = .int t) ∨ ∃ x, v = .float x :=
    .inl ⟨t, (Option.some.inj h).symm⟩
  have hfloat {x : Float} (h : some (Value.float x) = some v) :
      (∃ t, v = .int t) ∨ ∃ x, v = .float x := .inr ⟨x, (Option.some.inj h).symm⟩
  obtain ⟨negative, whole, fraction, exponent⟩ := n
  cases exponent with
  | none =>
    rw [Numeral.value?] at h
    simp only at h
    split at h
    · split at h
      · exact hint h
      · split at h
        · exact hint h
        · exact hfloat h
    · exact .inr (signedScale_isFloat h)
  | some exponent =>
    obtain ⟨minus, digits⟩ := exponent
    by_cases hexponent : digitsValue digits ≤ maxExponent
    · simp only [Numeral.value?, hexponent, if_true] at h
      exact .inr (signedScale_isFloat h)
    · simp only [Numeral.value?, hexponent, if_false] at h
      rw [Option.ite_none_right_eq_some] at h
      exact hfloat h.2

theorem scalarValue_textsBelow {n : Nat} {t : Token} {v : Value} (h : scalarValue t = .ok v)
    (ht : ∀ body s, t = .string body → textOf? body = some s → (Utf8.encode s).length < n) :
    v.TextsBelow n := by
  unfold scalarValue at h
  split at h
  next => exact Except.ok.inj h ▸ .null
  next => exact Except.ok.inj h ▸ .bool
  next numeral =>
    split at h
    next v' hvalue =>
      obtain rfl : v' = v := by simpa using h
      obtain ⟨t, rfl⟩ | ⟨x, rfl⟩ := value?_isNumber hvalue
      · exact .int
      · exact .float
    next => simp at h
  next body =>
    split at h
    next s hs => exact Except.ok.inj h ▸ .text (ht body s rfl hs)
    next => simp at h
  next => simp at h

theorem Builds.textsBelow {room n : Nat} {frames : List Frame} {t : Token} {m : Move}
    {progress : Progress} (h : Builds room frames t m progress)
    (ht : ∀ body s, t = .string body → textOf? body = some s → (Utf8.encode s).length < n)
    (hframes : ∀ frame ∈ frames, ∀ v ∈ frame.values, v.TextsBelow n) : progress.TextsBelow n := by
  cases h with
  | scalar hv => exact place_textsBelow (scalarValue_textsBelow hv ht) hframes
  | openArray _ => exact List.forall_mem_cons.mpr ⟨by simp [Frame.values], hframes⟩
  | openObject _ => exact List.forall_mem_cons.mpr ⟨by simp [Frame.values], hframes⟩
  | closeArray =>
    rw [List.forall_mem_cons] at hframes
    refine place_textsBelow (.array fun v hv => ?_) hframes.2
    exact hframes.1 v (List.mem_reverse.mp hv)
  | closeObject =>
    rw [List.forall_mem_cons] at hframes
    refine place_textsBelow (.object fun m hm => ?_) hframes.2
    exact hframes.1 m.2 (List.mem_map_of_mem (List.mem_reverse.mp hm))
  | key _ =>
    rw [List.forall_mem_cons] at hframes
    exact List.forall_mem_cons.mpr hframes
  | separator => exact hframes

/-- A value that is read holds no longer texts than its strings say. -/
theorem Reads.textsBelow {room n : Nat} {v : Value} {frames : List Frame} {need : Need}
    {ls : List Lexeme} (h : Reads room v frames need ls)
    (hls : ∀ l ∈ ls, ∀ body s, l.token = .string body → textOf? body = some s →
      (Utf8.encode s).length < n)
    (hframes : ∀ frame ∈ frames, ∀ v ∈ frame.values, v.TextsBelow n) : v.TextsBelow n := by
  induction h with
  | last _ hlast =>
    rw [List.forall_mem_singleton] at hls
    exact hlast.textsBelow hls hframes
  | next _ hnext _ ih =>
    rw [List.forall_mem_cons] at hls
    exact ih hls.2 (hnext.textsBelow hls.1 hframes)

end EventReplay.Json
