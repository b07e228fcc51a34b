import Mathlib.Data.List.Chain
import EventReplay.Proofs.TokenForms

/-!
# Where a record begins inside a text

The records of logs and of streams begin in a way by which they are told from anything else: brackets, and
behind them a name that starts with a `t`, but is not `true` (`Marked`). Wherever such a text stands behind
other bytes, its first bracket starts a lexeme, or the whole is no JSON (`lex_marked`): a string that is
still open runs up to the quote of the name, and then the name itself would have to be a lexeme.
-/

set_option autoImplicit false

namespace EventReplay.Json

/-- The text begins with brackets, of which the last opens an object, and with a name that starts with a
`t`, which no `r` follows. -/
def Marked (s : Bytes) : Prop :=
  ∃ front b w, s = front ++ ascii '\x7b' :: quote :: ascii 't' :: b :: w ∧
    (∀ c ∈ front, c = ascii '[') ∧ b ≠ ascii 'r'

theorem Marked.head {s : Bytes} (h : Marked s) :
    ∃ c rest, s = c :: rest ∧ (c = ascii '[' ∨ c = ascii '\x7b') := by
  obtain ⟨front, b, w, rfl, hfront, -⟩ := h
  cases front with
  | nil => exact ⟨_, _, rfl, .inr rfl⟩
  | cons c front => exact ⟨c, _, rfl, .inl (hfront c List.mem_cons_self)⟩

/-! ## Quotes in strings -/

theorem hexValue?_quote {a b c d : UInt8} {n : Nat} (h : hexValue? a b c d = some n) :
    a ≠ quote ∧ b ≠ quote ∧ c ≠ quote ∧ d ≠ quote := by
  have hnone : hexDigit? quote = none := by decide
  refine ⟨?_, ?_, ?_, ?_⟩ <;> rintro rfl <;> simp [hexValue?, hnone] at h

/-- A quote in the body of a string stands behind a backslash. -/
theorem isChain_body {s body rest : Bytes} (h : readBody s = some (body, rest)) (c : UInt8) :
    (c :: body).IsChain fun a b => b = quote → a = backslash := by
  have hu : ascii 'u' ≠ quote := by decide
  have hslash : backslash ≠ quote := by decide
  fun_induction readBody s generalizing body rest c with
  | case1 => simp at h
  | case2 s =>
      obtain ⟨rfl, -⟩ : [] = body ∧ s = rest := by simpa using h
      exact .singleton c
  | case3 => simp at h
  | case4 => simp at h
  | case5 => simp at h
  | case6 h₁ h₂ h₃ h₄ after value hvalue _ _ ih =>
      obtain ⟨⟨body', rest'⟩, hbody, heq⟩ := Option.map_eq_some_iff.mp h
      obtain ⟨rfl, rfl⟩ := Prod.mk.inj heq
      obtain ⟨hne₁, hne₂, hne₃, hne₄⟩ := hexValue?_quote hvalue
      simp only [List.isChain_cons_cons, hu, hslash, hne₁, hne₂, hne₃, hne₄, false_implies, true_and]
      exact ih hbody h₄
  | case7 => simp at h
  | case8 => simp at h
  | case9 e after _ value _ _ _ ih =>
      obtain ⟨⟨body', rest'⟩, hbody, heq⟩ := Option.map_eq_some_iff.mp h
      obtain ⟨rfl, rfl⟩ := Prod.mk.inj heq
      simp only [List.isChain_cons_cons, hslash, false_implies, implies_true, true_and]
      exact ih hbody e
  | case10 b after hquote _ _ ih =>
      obtain ⟨⟨body', rest'⟩, hbody, heq⟩ := Option.map_eq_some_iff.mp h
      obtain ⟨rfl, rfl⟩ := Prod.mk.inj heq
      simp only [List.isChain_cons_cons, hquote, false_implies, true_and]
      exact ih hbody b

/-! ## A marked text behind other bytes -/

variable {front v p rest : Bytes}

/-- A string that runs up to brackets and a quote behind them ends there. -/
theorem eq_of_body {body z : Bytes} (hbody : readBody (body ++ [quote]) = some (body, []))
    (hfront : ∀ c ∈ front, c = ascii '[') (hz : body = p ++ z)
    (hcut : (front ++ [ascii '\x7b']) ++ quote :: v = z ++ quote :: rest) : rest = v := by
  rcases List.append_eq_append_iff.mp hcut with ⟨y, rfl, hy⟩ | ⟨y, hy, hrest⟩
  · cases y with
    | nil => exact (List.cons.inj hy).2.symm
    | cons d y =>
        obtain rfl : quote = d := (List.cons.inj hy).1
        have hchain := isChain_body hbody quote
        have hsplit : quote :: body = (quote :: (p ++ front)) ++ ascii '\x7b' :: quote :: y := by
          rw [hz]
          simp
        rw [hsplit, List.isChain_append_cons_cons] at hchain
        exact absurd (hchain.2.1 rfl) (by decide)
  · cases y with
    | nil => exact (List.cons.inj hrest).2
    | cons d y =>
        obtain rfl : quote = d := (List.cons.inj hrest).1
        have hmem : quote ∈ front ++ [ascii '\x7b'] := by
          rw [hy]
          exact List.mem_append_right _ List.mem_cons_self
        rcases List.mem_append.mp hmem with hmem | hmem
        · exact absurd (hfront quote hmem) (by decide)
        · exact absurd (List.mem_singleton.mp hmem) (by decide)

/-- What a lexeme that starts in front of a marked text leaves: all of the marked text, or, when the lexeme
is a string that runs into it, what stands behind its first quote. -/
theorem left_of_form {b : UInt8} {text : Bytes} {token : Token} (hform : token.Form (b :: text))
    (hfront : ∀ c ∈ front, c = ascii '[')
    (hcut : p ++ (front ++ ascii '\x7b' :: quote :: v) = text ++ rest) :
    front ++ ascii '\x7b' :: quote :: v <:+ rest ∨ rest = v := by
  obtain ⟨c, s, hs, hc⟩ : ∃ c s, front ++ ascii '\x7b' :: quote :: v = c :: s ∧
      (c = ascii '[' ∨ c = ascii '\x7b') := by
    cases front with
    | nil => exact ⟨_, _, rfl, .inr rfl⟩
    | cons c front => exact ⟨c, _, rfl, .inl (hfront c List.mem_cons_self)⟩
  have hpast : ∀ x, p = text ++ x → front ++ ascii '\x7b' :: quote :: v <:+ rest := by
    rintro x rfl
    rw [List.append_assoc] at hcut
    exact ⟨x, List.append_cancel_left hcut⟩
  cases hform with
  | mark => exact .inl ⟨p, hcut⟩
  -- no word and no numeral holds a bracket
  | scalar _ hscalar =>
      left
      rcases List.append_eq_append_iff.mp hcut with ⟨z, rfl, hz⟩ | ⟨x, hx, -⟩
      · cases z with
        | nil => exact hpast [] (by simp)
        | cons d z =>
            rw [hs] at hz
            obtain ⟨rfl, -⟩ := List.cons.inj hz
            have hbyte := hscalar c (by simp)
            obtain rfl | rfl := hc <;> exact absurd hbyte (by decide)
      · exact hpast x hx
  | @string body hbody =>
      rw [List.append_assoc, List.singleton_append] at hcut
      rcases List.append_eq_append_iff.mp hcut with ⟨z, hz, hrest⟩ | ⟨z, rfl, hz⟩
      · rw [← List.singleton_append, ← List.append_assoc] at hrest
        exact .inr (eq_of_body hbody hfront hz hrest)
      · left
        cases z with
        | nil =>
            rw [List.nil_append, hs] at hz
            obtain ⟨rfl, -⟩ := List.cons.inj hz
            obtain hc | hc := hc <;> exact absurd hc (by decide)
        | cons d z =>
            obtain ⟨rfl, -⟩ := List.cons.inj hz
            exact hpast z (by simp)

/-- A `t` that starts no word. -/
theorem isGood_of_name {b : UInt8} (hb : b ≠ ascii 'r') (w : Bytes) :
    ∃ l ∈ lex (ascii 't' :: b :: w), l.token.isGood = false := by
  have hread : readToken (ascii 't') (b :: w) = (.badScalar .malformed, []) := by
    have hmark : punctuation? (ascii 't') = none := by decide
    have hword : word? (ascii 't') = some (Bytes.ofAscii "rue", .bool true) := by decide
    have hcut : readWord (Bytes.ofAscii "rue") (b :: w) = .error .malformed := by
      have hletters : Bytes.ofAscii "rue" = ascii 'r' :: Bytes.ofAscii "ue" := by decide
      rw [hletters, readWord, if_neg hb]
    rw [readToken, hmark, hword]
    simp only [hcut]
  have hgap : isGap (ascii 't') = false := by decide
  obtain ⟨l, hlexeme, htoken⟩ : ∃ l, readLexeme (ascii 't' :: b :: w) = some (l, []) ∧
      l.token = .badScalar .malformed := by
    rw [readLexeme, List.dropWhile_cons, hgap]
    simp only [Bool.false_eq_true, if_false, hread]
    exact ⟨_, rfl, rfl⟩
  refine ⟨l, ?_, by rw [htoken]; rfl⟩
  rw [lex_cons hlexeme]
  exact List.mem_cons_self

/-- Behind other bytes a marked text starts a lexeme of its own, but for blanks in front of it, or some
lexeme of the whole is a fault. -/
theorem lex_marked {s : Bytes} (h : Marked s) (p : Bytes) :
    (∃ xs gap, p = xs.flatMap Lexeme.bytes ++ gap ∧ (∀ b ∈ gap, isGap b = true) ∧
      lex (p ++ s) = xs ++ lex (gap ++ s)) ∨
    ∃ l ∈ lex (p ++ s), l.token.isGood = false := by
  obtain ⟨front, b, w, rfl, hfront, hb⟩ := h
  induction hp : p.length using Nat.strongRecOn generalizing p with
  | _ n ih =>
    subst hp
    by_cases hall : ∀ c ∈ p, isGap c = true
    · exact .inl ⟨[], p, rfl, hall, rfl⟩
    cases hread : readLexeme (p ++ (front ++ ascii '\x7b' :: quote :: ascii 't' :: b :: w)) with
    | none =>
        exact absurd (List.forall_mem_append.mp (all_isGap_of_lex_nil (lex_nil hread))).1 hall
    | some found =>
        obtain ⟨l, rest⟩ := found
        rw [lex_cons hread]
        by_cases hgood : l.token.isGood = true
        · obtain ⟨hcut, hgap, hform⟩ := readLexeme_form hread hgood
          obtain ⟨⟨c, text, htext, hc⟩, -⟩ := hform.ends
          rw [htext] at hform hcut
          -- the lexeme starts in front of the marked text
          obtain ⟨p', rfl, hrest⟩ : ∃ p', p = l.gap ++ c :: p' ∧
              p' ++ (front ++ ascii '\x7b' :: quote :: ascii 't' :: b :: w) = text ++ rest := by
            rcases List.append_eq_append_iff.mp hcut with ⟨z, hz, -⟩ | ⟨z, rfl, hz⟩
            · exact absurd (fun c hc => hgap c (hz ▸ List.mem_append_left _ hc)) hall
            · cases z with
              | nil => exact absurd (by simpa using hgap) hall
              | cons d z =>
                  obtain ⟨rfl, hrest⟩ := List.cons.inj hz
                  exact ⟨z, rfl, hrest.symm⟩
          rcases left_of_form hform hfront hrest with ⟨more, rfl⟩ | rfl
          · obtain rfl : p' = text ++ more :=
              List.append_cancel_right (hrest.trans (List.append_assoc ..).symm)
            rcases ih more.length (by simp; omega) more rfl with ⟨xs, gap, hmore, hgap', hlex⟩ | ⟨l', hl', hbad⟩
            · refine .inl ⟨l :: xs, gap, ?_, hgap', by rw [hlex]; rfl⟩
              rw [List.flatMap_cons, Lexeme.bytes, htext, hmore]
              simp
            · exact .inr ⟨l', List.mem_cons_of_mem _ hl', hbad⟩
          · obtain ⟨l', hl', hbad⟩ := isGood_of_name hb w
            exact .inr ⟨l', List.mem_cons_of_mem _ hl', hbad⟩
        · exact .inr ⟨l, List.mem_cons_self, by simpa using hgood⟩

end EventReplay.Json
