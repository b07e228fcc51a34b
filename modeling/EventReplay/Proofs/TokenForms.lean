import EventReplay.Proofs.LexemeCut

/-!
# How tokens are spelled

A token that is no fault is a punctuation mark, or a word or a numeral, or a string (`Token.Form`). So a
lexeme neither starts nor ends with a blank, and only a string can hold a bracket.
-/

set_option autoImplicit false

namespace EventReplay.Json

variable {s rest : Bytes}

/-! ## Words and numerals -/

/-- A byte of a word or of a numeral. -/
def isScalarByte (b : UInt8) : Bool :=
  Bytes.isDigit b || b = ascii '.' || b = ascii '+' || b = ascii '-' || b = ascii 'E' ||
    (ascii 'a' ≤ b && b ≤ ascii 'z')

/-- Only bytes of words and numerals. -/
def IsScalarText (x : Bytes) : Prop := ∀ b ∈ x, isScalarByte b = true

theorem isScalarText_digits {digits : Bytes} (h : ∀ b ∈ digits, Bytes.isDigit b = true) :
    IsScalarText digits := by
  intro b hb
  simp [isScalarByte, h b hb]

theorem readFraction_form {fraction : Option Bytes} (h : readFraction s = .ok (fraction, rest)) :
    ∃ spelled, s = spelled ++ rest ∧ IsScalarText spelled := by
  unfold readFraction at h
  split at h
  · obtain ⟨-, rfl⟩ := Prod.mk.inj (Except.ok.inj h)
    exact ⟨[], rfl, by simp [IsScalarText]⟩
  next b s =>
    split at h
    next hb =>
      split at h
      · simp at h
      next digits rest' hread =>
        obtain ⟨-, rfl⟩ := Prod.mk.inj (Except.ok.inj h)
        obtain ⟨rfl, -, hdigits, -⟩ := readDigits_cut hread
        exact ⟨b :: digits, rfl, List.forall_mem_cons.mpr
          ⟨by rw [hb]; decide, isScalarText_digits hdigits⟩⟩
    · obtain ⟨-, rfl⟩ := Prod.mk.inj (Except.ok.inj h)
      exact ⟨[], rfl, by simp [IsScalarText]⟩

theorem readExponent_form {exponent : Option (Bool × Bytes)}
    (h : readExponent s = .ok (exponent, rest)) :
    ∃ spelled, s = spelled ++ rest ∧ IsScalarText spelled := by
  unfold readExponent at h
  split at h
  · obtain ⟨-, rfl⟩ := Prod.mk.inj (Except.ok.inj h)
    exact ⟨[], rfl, by simp [IsScalarText]⟩
  next b s =>
    split at h
    next hb =>
      have hscalar : isScalarByte b = true := by obtain rfl | rfl := hb <;> decide
      split at h
      next minus after hsign =>
        -- a sign in front of the digits
        obtain ⟨sign, hs, hspelled⟩ : ∃ sign, s = sign ++ after ∧ IsScalarText sign := by
          split at hsign
          · obtain ⟨-, rfl⟩ := Prod.mk.inj hsign
            exact ⟨[], rfl, by simp [IsScalarText]⟩
          next c digits =>
            split at hsign
            next hc =>
              obtain ⟨-, rfl⟩ := Prod.mk.inj hsign
              exact ⟨[c], rfl, List.forall_mem_singleton.mpr (by rw [hc]; decide)⟩
            next =>
              split at hsign
              next hc =>
                obtain ⟨-, rfl⟩ := Prod.mk.inj hsign
                exact ⟨[c], rfl, List.forall_mem_singleton.mpr (by rw [hc]; decide)⟩
              next =>
                obtain ⟨-, rfl⟩ := Prod.mk.inj hsign
                exact ⟨[], rfl, by simp [IsScalarText]⟩
        split at h
        · simp at h
        next digits rest' hread =>
          obtain ⟨-, rfl⟩ := Prod.mk.inj (Except.ok.inj h)
          obtain ⟨rfl, -, hdigits, -⟩ := readDigits_cut hread
          exact ⟨b :: (sign ++ digits), by rw [hs]; simp, List.forall_mem_cons.mpr
            ⟨hscalar, List.forall_mem_append.mpr ⟨hspelled, isScalarText_digits hdigits⟩⟩⟩
    · obtain ⟨-, rfl⟩ := Prod.mk.inj (Except.ok.inj h)
      exact ⟨[], rfl, by simp [IsScalarText]⟩

theorem readMinus_form (s : Bytes) : ∃ spelled, s = spelled ++ (readMinus s).2 ∧ IsScalarText spelled := by
  unfold readMinus
  split
  · exact ⟨[], rfl, by simp [IsScalarText]⟩
  next b s =>
    split
    next hb => exact ⟨[b], rfl, List.forall_mem_singleton.mpr (by rw [hb]; decide)⟩
    next => exact ⟨[], rfl, by simp [IsScalarText]⟩

theorem readNumeral_form {n : Numeral} (h : readNumeral s = .ok (n, rest)) :
    ∃ spelled, s = spelled ++ rest ∧ IsScalarText spelled := by
  unfold readNumeral at h
  split at h
  · simp at h
  next whole rest₁ hwhole =>
    split at h
    · simp at h
    next fraction rest₂ hfraction =>
      split at h
      · simp at h
      next exponent rest₃ hexponent =>
        obtain ⟨-, rfl⟩ := Prod.mk.inj (Except.ok.inj h)
        obtain ⟨minus, hs, hminus⟩ := readMinus_form s
        obtain ⟨hs₁, -, hdigits, -⟩ := readWhole_cut hwhole
        obtain ⟨point, rfl, hpoint⟩ := readFraction_form hfraction
        obtain ⟨mark, rfl, hmark⟩ := readExponent_form hexponent
        refine ⟨minus ++ (whole ++ (point ++ mark)), ?_, ?_⟩
        · rw [hs, hs₁]
          simp
        · simp only [IsScalarText, List.forall_mem_append]
          exact ⟨hminus, isScalarText_digits hdigits, hpoint, hmark⟩

/-! ## Tokens -/

/-- A word or a numeral. -/
def Token.isPlain : Token → Bool
  | .null | .bool _ | .number _ => true
  | _ => false

/-- How a token that is no fault is spelled. -/
inductive Token.Form : Token → Bytes → Prop
  | mark {b : UInt8} {token : Token} (h : punctuation? b = some token) : Form token [b]
  | scalar {b : UInt8} {tail : Bytes} {token : Token} (hplain : token.isPlain = true)
    (h : IsScalarText (b :: tail)) : Form token (b :: tail)
  | string {body : Bytes} (h : readBody (body ++ [quote]) = some (body, [])) :
    Form (.string body) (quote :: (body ++ [quote]))

/-- A closing bracket is spelled by one byte. -/
theorem Token.Form.closing {token : Token} {text : Bytes} (h : token.Form text)
    (hclose : token = .closeArray ∨ token = .closeObject) :
    ∃ b, text = [b] ∧ (b = ascii ']' ∨ b = ascii '\x7d') := by
  cases h with
  | @mark b _ h =>
      refine ⟨b, rfl, ?_⟩
      unfold punctuation? at h
      repeat' split at h
      all_goals
        obtain rfl | rfl := hclose <;> simp at h
      next hb => exact .inl hb
      next hb => exact .inr hb
  | scalar hplain => obtain rfl | rfl := hclose <;> simp [Token.isPlain] at hplain
  | string => simp at hclose

theorem readToken_form {b : UInt8} {token : Token} (h : readToken b s = (token, rest))
    (hgood : token.isGood = true) : ∃ tail, s = tail ++ rest ∧ token.Form (b :: tail) := by
  rw [readToken] at h
  split at h
  next mark hmark =>
    obtain ⟨rfl, rfl⟩ := Prod.mk.inj h
    exact ⟨[], rfl, .mark hmark⟩
  next hmark =>
    split at h
    next word mark hword =>
      split at h
      next after hread =>
        obtain ⟨rfl, rfl⟩ := Prod.mk.inj h
        obtain ⟨hplain, hletters⟩ : mark.isPlain = true ∧ IsScalarText (b :: word) := by
          unfold word? at hword
          repeat' split at hword
          all_goals
            simp only [Option.some.injEq, Prod.mk.injEq, reduceCtorEq] at hword
          all_goals
            obtain ⟨rfl, rfl⟩ := hword
            subst b
            exact ⟨rfl, List.all_eq_true.mp (by decide)⟩
        exact ⟨word, readWord_cut hread, .scalar hplain hletters⟩
      next fault _ =>
        obtain ⟨rfl, -⟩ := Prod.mk.inj h
        simp [Token.isGood] at hgood
    next hword =>
      split at h
      next hquote =>
        split at h
        next body after hread =>
          obtain ⟨rfl, rfl⟩ := Prod.mk.inj h
          obtain ⟨rfl, hagain⟩ := readBody_cut hread
          exact ⟨body ++ [quote], by simp, hquote ▸ .string (hagain [])⟩
        next =>
          obtain ⟨rfl, -⟩ := Prod.mk.inj h
          simp [Token.isGood] at hgood
      next hquote =>
        split at h
        next n after hread =>
          obtain ⟨rfl, rfl⟩ := Prod.mk.inj h
          obtain ⟨spelled, hs, hspelled⟩ := readNumeral_form hread
          have hlength := readNumeral_length hread
          cases spelled with
          | nil =>
              rw [hs] at hlength
              exact absurd hlength (Nat.lt_irrefl _)
          | cons c tail =>
              obtain ⟨rfl, rfl⟩ := List.cons.inj hs
              exact ⟨tail, rfl, .scalar rfl hspelled⟩
        next =>
          obtain ⟨rfl, -⟩ := Prod.mk.inj h
          simp [Token.isGood] at hgood

/-- A lexeme stands behind blanks and is spelled by its token. -/
theorem readLexeme_form {l : Lexeme} (h : readLexeme s = some (l, rest)) (hgood : l.token.isGood = true) :
    s = l.gap ++ (l.text ++ rest) ∧ (∀ b ∈ l.gap, isGap b = true) ∧ l.token.Form l.text := by
  have hbytes := bytes_append_of_readLexeme h
  rw [Lexeme.bytes, List.append_assoc] at hbytes
  unfold readLexeme at h
  split at h
  · simp at h
  next b after hs =>
    obtain ⟨token, rest', hread⟩ : ∃ token rest', readToken b after = (token, rest') := ⟨_, _, rfl⟩
    rw [hread] at h
    simp only [Option.some.injEq, Prod.mk.injEq] at h
    obtain ⟨rfl, rfl⟩ := h
    obtain ⟨tail, rfl, hform⟩ := readToken_form hread hgood
    refine ⟨hbytes.symm, fun c hc => List.mem_takeWhile_imp hc, ?_⟩
    have hspelling := spelling_append (b :: tail) rest'
    rw [List.cons_append] at hspelling
    dsimp only
    rw [hspelling]
    exact hform

/-! ## Blanks around a lexeme -/

theorem isGap_of_isScalarByte {b : UInt8} (h : isScalarByte b = true) : isGap b = false := by
  rw [← Bool.not_eq_true]
  intro hgap
  simp only [isGap, Bool.or_eq_true, decide_eq_true_eq] at hgap
  obtain ((rfl | rfl) | rfl) | rfl := hgap <;> exact absurd h (by decide)

theorem isGap_of_punctuation? {b : UInt8} {token : Token} (h : punctuation? b = some token) :
    isGap b = false := by
  rw [← Bool.not_eq_true]
  intro hgap
  simp only [isGap, Bool.or_eq_true, decide_eq_true_eq] at hgap
  obtain ((rfl | rfl) | rfl) | rfl := hgap <;>
    exact absurd (h.symm.trans (by decide)) (Option.some_ne_none token)

/-- No blank stands at either end of a token. -/
theorem Token.Form.ends {token : Token} {text : Bytes} (h : token.Form text) :
    (∃ b tail, text = b :: tail ∧ isGap b = false) ∧ ∃ front b, text = front ++ [b] ∧ isGap b = false := by
  cases h with
  | @mark b _ h => exact ⟨⟨b, [], rfl, isGap_of_punctuation? h⟩, [], b, rfl, isGap_of_punctuation? h⟩
  | @scalar b tail _ _ h =>
      obtain ⟨front, c, hlast⟩ := (List.eq_nil_or_concat (b :: tail)).resolve_left (by simp)
      rw [List.concat_eq_append] at hlast
      have hc : c ∈ b :: tail := by
        rw [hlast]
        exact List.mem_append_right _ (List.mem_singleton_self c)
      exact ⟨⟨b, tail, rfl, isGap_of_isScalarByte (h b List.mem_cons_self)⟩, front, c, hlast,
        isGap_of_isScalarByte (h c hc)⟩
  | @string body h => exact ⟨⟨quote, _, rfl, by decide⟩, quote :: body, quote, rfl, by decide⟩

/-- Behind the last lexeme of a text there are only blanks. -/
theorem all_isGap_of_lex_nil (h : lex s = []) : ∀ b ∈ s, isGap b = true := by
  cases hread : readLexeme s with
  | some found =>
      rw [lex_cons hread] at h
      simp at h
  | none =>
      unfold readLexeme at hread
      split at hread
      · rename_i hs
        exact List.dropWhile_eq_nil_iff.mp hs
      · simp at hread

/-- How the good lexemes of a text are spelled. -/
theorem form_of_mem_lex {l : Lexeme} (hl : l ∈ lex s) (hgood : l.token.isGood = true) :
    l.token.Form l.text ∧ ∀ b ∈ l.gap, isGap b = true := by
  fun_induction lex s with
  | case1 => simp at hl
  | case2 s first rest h ih =>
      obtain rfl | hl := List.mem_cons.mp hl
      · obtain ⟨-, hgap, hform⟩ := readLexeme_form h hgood
        exact ⟨hform, hgap⟩
      · exact ih hl

/-- What lexemes spell ends with no blank. -/
theorem spell_ends {ls : List Lexeme} (hne : ls ≠ []) (hforms : ∀ l ∈ ls, l.token.Form l.text) :
    ∃ front b, spell ls = front ++ [b] ∧ isGap b = false := by
  obtain ⟨before, last, rfl⟩ := (List.eq_nil_or_concat ls).resolve_left hne
  rw [List.concat_eq_append] at hforms ⊢
  obtain ⟨-, front, b, htext, hb⟩ := (hforms last (by simp)).ends
  cases before with
  | nil => exact ⟨front, b, by simp [spell, htext], hb⟩
  | cons l before =>
      exact ⟨l.text ++ (before.flatMap fun l => l.gap ++ l.text) ++ (last.gap ++ front), b,
        by simp [spell, htext], hb⟩

/-- Blanks in front of a text go to its first lexeme. -/
theorem readLexeme_gap {gap : Bytes} (hgap : ∀ b ∈ gap, isGap b = true) (s : Bytes) :
    readLexeme (gap ++ s) =
      (readLexeme s).map fun (l, rest) => ({ l with gap := gap ++ l.gap }, rest) := by
  unfold readLexeme
  rw [List.dropWhile_append_of_pos hgap, List.takeWhile_append_of_pos hgap]
  cases s.dropWhile isGap <;> rfl

/-- But for that, they change none of its lexemes. -/
theorem lex_gap {gap : Bytes} (hgap : ∀ b ∈ gap, isGap b = true) (s : Bytes) :
    dropGap (lex (gap ++ s)) = dropGap (lex s) := by
  cases hread : readLexeme s with
  | none =>
      rw [lex_nil hread, lex_nil (by rw [readLexeme_gap hgap, hread]; rfl)]
  | some found =>
      obtain ⟨l, rest⟩ := found
      have hread' : readLexeme (gap ++ s) = some ({ l with gap := gap ++ l.gap }, rest) := by
        rw [readLexeme_gap hgap, hread]
        rfl
      rw [lex_cons hread, lex_cons hread']
      rfl

theorem tokens_dropGap (ls : List Lexeme) : (dropGap ls).map Lexeme.token = ls.map Lexeme.token := by
  cases ls <;> rfl

theorem tokens_lex_gap {gap : Bytes} (hgap : ∀ b ∈ gap, isGap b = true) (s : Bytes) :
    (lex (gap ++ s)).map Lexeme.token = (lex s).map Lexeme.token := by
  rw [← tokens_dropGap, lex_gap hgap, tokens_dropGap]

end EventReplay.Json
