import EventReplay.Proofs.StringBody
import EventReplay.Proofs.ValueReading

/-!
# A value and its text

A text that holds a value for the reader holds one for the scanner, as it is spelled
(`rawValue?_of_read`). All texts in the value are shorter than its own (`textsBelow_of_read`), so
texts within texts need not be followed any deeper than the outermost is long (`Value.settle_of_textsBelow`).
-/

set_option autoImplicit false

namespace EventReplay.Json

/-! ## Spelling -/

theorem isText_flatMap {ls : List Lexeme} (h : ∀ l ∈ ls, Utf8.IsText l.bytes) :
    Utf8.IsText (ls.flatMap Lexeme.bytes) := by
  induction ls with
  | nil => exact ⟨"", rfl⟩
  | cons l ls ih =>
    rw [List.forall_mem_cons] at h
    rw [List.flatMap_cons]
    exact h.1.append (ih h.2)

theorem lt_of_isGap {b : UInt8} (h : isGap b = true) : b < 0x80 := by
  simp only [isGap, Bool.or_eq_true, decide_eq_true_eq] at h
  obtain ((rfl | rfl) | rfl) | rfl := h <;> decide

/-- A lexeme that is no string, or one that says a text, is a text. -/
theorem isText_of_spelledAs {l : Lexeme} (h : l.token.SpelledAs l.text)
    (htold : ∀ body, l.token = .string body → ∃ s, textOf? body = some s) : Utf8.IsText l.text := by
  cases htoken : l.token with
  | string body =>
    rw [htoken] at h
    obtain ⟨htext, hbody⟩ := h
    obtain ⟨s, hs⟩ := htold body htoken
    have hquote : Utf8.IsText [quote] := Utf8.isText_of_ascii (isAscii_of_all (by decide))
    rw [htext, ← List.singleton_append]
    exact hquote.append ((isText_of_textOf? hbody hs).append hquote)
  | _ =>
    rw [htoken] at h
    exact Utf8.isText_of_ascii h

theorem isText_spell {s : Bytes} (hgood : ∀ l ∈ lex s, l.token.isGood = true)
    (htold : ∀ l ∈ lex s, ∀ body, l.token = .string body → ∃ t, textOf? body = some t) :
    Utf8.IsText (spell (lex s)) := by
  have htext : ∀ l ∈ lex s, Utf8.IsText l.text ∧ Utf8.IsText l.gap := fun l hl => by
    obtain ⟨hspelled, hgap, -⟩ := spelledAs_of_mem_lex hl (hgood l hl)
    exact ⟨isText_of_spelledAs hspelled (htold l hl),
      Utf8.isText_of_ascii fun b hb => lt_of_isGap (hgap b hb)⟩
  cases hls : lex s with
  | nil => exact ⟨"", rfl⟩
  | cons l ls =>
    rw [hls, List.forall_mem_cons] at htext
    refine htext.1.1.append (isText_flatMap fun l' hl' => ?_)
    exact (htext.2 l' hl').2.append (htext.2 l' hl').1

/-! ## The scanner -/

/-- A value is spelled by all lexemes of the text that holds it. -/
theorem rawValue?_eq_some {s text : Bytes} (h : rawValue? s = some text) :
    text = spell (lex s) ∧ Skips [] .value (lex s) := by
  unfold rawValue? at h
  split at h
  next taken hskip =>
    obtain ⟨htaken, hskips⟩ := skipValue_eq_some.mp hskip
    rw [List.append_nil] at htaken
    simp only at h
    split at h
    · exact ⟨htaken ▸ (Option.some.inj h).symm, htaken ▸ hskips⟩
    · simp at h
  next => simp at h

theorem read_eq_ok {s : Bytes} {v : Value} :
    Value.read s = .ok v ↔ Reads maxDepth v [] .value (lex s) := by
  have hreads : readValue maxDepth [] .value (lex s) = .ok (v, []) ↔
      Reads maxDepth v [] .value (lex s) := by
    simp [readValue_eq_ok]
  rw [← hreads]
  unfold Value.read
  split
  next h => simp [h]
  next h => simp [h]
  next h => simp [h]

/-- What holds a value for the reader holds one for the scanner. -/
theorem rawValue?_of_read {s : Bytes} {v : Value} (h : Value.read s = .ok v) :
    rawValue? s = some (spell (lex s)) := by
  have hreads := read_eq_ok.mp h
  have hc : Coherent [] .value := rfl
  have hskips := hreads.skips hc
  have hskip : skipValue [] .value (lex s) = some (lex s, []) :=
    skipValue_eq_some.mpr ⟨(List.append_nil _).symm, hskips⟩
  have htext := isText_spell hskips.isGood hreads.strings
  rw [rawValue?]
  simp only [hskip, Utf8.isSome_decode?_iff.mpr htext, if_true]

/-! ## The length of texts -/

/-- A string in a text says less than the whole text. -/
theorem length_lt_of_mem_lex {s : Bytes} {l : Lexeme} (hl : l ∈ lex s) {body : Bytes} {t : String}
    (hbody : l.token = .string body) (ht : textOf? body = some t) : (Utf8.encode t).length < s.length := by
  obtain ⟨hspelled, -, hlength⟩ := spelledAs_of_mem_lex hl (by rw [hbody]; rfl)
  rw [hbody] at hspelled
  obtain ⟨htext, hread⟩ := hspelled
  have htold := length_le_of_textOf? hread ht
  rw [htext, List.length_cons, List.length_append] at hlength
  omega

theorem Value.TextsBelow.mono {m n : Nat} {v : Value} (h : v.TextsBelow m) (hle : m ≤ n) :
    v.TextsBelow n := by
  induction h with
  | null => exact .null
  | bool => exact .bool
  | int => exact .int
  | float => exact .float
  | text h => exact .text (Nat.lt_of_lt_of_le h hle)
  | array _ ih => exact .array ih
  | object _ ih => exact .object ih

/-- All texts of a value are shorter than its own. -/
theorem textsBelow_of_read {s : Bytes} {v : Value} (h : Value.read s = .ok v) :
    v.TextsBelow s.length := by
  refine (read_eq_ok.mp h).textsBelow (fun l hl body t => length_lt_of_mem_lex hl) ?_
  simp

/-! ## Settling -/

/-- The value that an object stands for which starts with the embedded key. -/
theorem settle_embedded {d : Nat} {v w : Value} {more : List (String × Value)} :
    (Value.object ((embeddedKey, v) :: more)).settle d = some w ↔
      ∃ k s inner, d = k + 1 ∧ v = .text s ∧ more = [] ∧ Value.read (Utf8.encode s) = .ok inner ∧
        inner.settle k = some w := by
  constructor
  · intro h
    rw [Value.settle.eq_def] at h
    simp only [if_true] at h
    split at h
    next _ _ _ k s =>
      split at h
      next inner hread => exact ⟨k, s, inner, rfl, rfl, rfl, hread, h⟩
      next => simp at h
    next => simp at h
  · rintro ⟨k, s, inner, rfl, rfl, rfl, hread, h⟩
    rw [Value.settle.eq_def]
    simp only [if_true, hread, h]

theorem settle_object {d : Nat} {key : String} {v : Value} {more : List (String × Value)}
    (hkey : key ≠ embeddedKey) :
    (Value.object ((key, v) :: more)).settle d =
      match v.settle d, settleMembers d more with
      | some v, some more =>
        some (.object (more.foldl (fun ms m => setMember m.1 m.2 ms) [(key, v)]))
      | _, _ => none := by
  rw [Value.settle.eq_def]
  exact if_neg hkey

mutual

/-- Texts within texts get shorter and shorter, so they need be followed only so far. -/
theorem Value.settle_of_textsBelow : ∀ {d n : Nat} {v w : Value}, v.settle d = some w →
    v.TextsBelow n → v.settle n = some w
  | d, n, .array items, w, h, .array hitems => by
    rw [Value.settle, Option.map_eq_some_iff] at h
    obtain ⟨settled, hsettled, rfl⟩ := h
    rw [Value.settle, settleItems_of_textsBelow hsettled hitems]
    rfl
  | d, n, .object ((key, v) :: more), w, h, .object hmembers => by
    rw [List.forall_mem_cons] at hmembers
    by_cases hkey : key = embeddedKey
    · subst hkey
      obtain ⟨k, s, inner, rfl, rfl, rfl, hread, hinner⟩ := settle_embedded.mp h
      -- the text is shorter than `n`, and those in it are shorter than the text
      obtain ⟨k', rfl, hlength⟩ : ∃ k', n = k' + 1 ∧ (Utf8.encode s).length ≤ k' := by
        cases hmembers.1 with
        | text hlt => exact ⟨n - 1, by omega, by omega⟩
      have hbelow := (textsBelow_of_read hread).mono hlength
      exact settle_embedded.mpr
        ⟨k', s, inner, rfl, rfl, rfl, hread, Value.settle_of_textsBelow hinner hbelow⟩
    · rw [settle_object hkey] at h ⊢
      split at h
      next w ws hv hmore =>
        rw [Value.settle_of_textsBelow hv hmembers.1, settleMembers_of_textsBelow hmore hmembers.2]
        exact h
      next => simp at h
  | _, _, .object [], _, h, _ | _, _, .null, _, h, _ | _, _, .bool _, _, h, _
  | _, _, .int _, _, h, _ | _, _, .float _, _, h, _ | _, _, .text _, _, h, _ => by
    simpa [Value.settle] using h
termination_by d _ v => (d, sizeOf v)

theorem settleItems_of_textsBelow : ∀ {d n : Nat} {items settled : List Value},
    settleItems d items = some settled → (∀ v ∈ items, v.TextsBelow n) →
    settleItems n items = some settled
  | _, _, [], _, h, _ => by simpa [settleItems] using h
  | d, n, v :: items, settled, h, hitems => by
    rw [List.forall_mem_cons] at hitems
    rw [settleItems] at h ⊢
    split at h
    next w ws hv hrest =>
      rw [Value.settle_of_textsBelow hv hitems.1, settleItems_of_textsBelow hrest hitems.2]
      exact h
    next => simp at h
termination_by d _ items => (d, sizeOf items)

theorem settleMembers_of_textsBelow : ∀ {d n : Nat} {members settled : List (String × Value)},
    settleMembers d members = some settled → (∀ m ∈ members, m.2.TextsBelow n) →
    settleMembers n members = some settled
  | _, _, [], _, h, _ => by simpa [settleMembers] using h
  | d, n, (key, v) :: members, settled, h, hmembers => by
    rw [List.forall_mem_cons] at hmembers
    rw [settleMembers] at h ⊢
    split at h
    next w ws hv hrest =>
      rw [Value.settle_of_textsBelow hv hmembers.1, settleMembers_of_textsBelow hrest hmembers.2]
      exact h
    next => simp at h
termination_by d _ members => (d, sizeOf members)

end

end EventReplay.Json
