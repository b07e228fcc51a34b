import Mathlib.Data.List.TakeWhile
import EventReplay.Proofs.LexemeSpan
import EventReplay.Proofs.QuotedText

/-!
# Where a lexeme ends

A lexeme is read the same whatever stands behind it, as long as that does not go on a numeral
(`readLexeme_cut`). So the lexemes of a text, written one behind the other before something else, are
read as themselves (`lex_append`), also without the blanks in front of the first (`lex_spell`).
-/

set_option autoImplicit false

namespace EventReplay.Json

/-! ## Where a numeral ends -/

/-- No digit stands at the front. -/
def NoDigit (x : Bytes) : Prop := ∀ b ∈ x.head?, Bytes.isDigit b = false

/-- A byte that is no digit and goes on a numeral. -/
def isNumeralMark (b : UInt8) : Bool := b = ascii '.' || b = ascii 'e' || b = ascii 'E'

/-- Nothing at the front goes on a numeral. -/
def Stops (x : Bytes) : Prop := NoDigit x ∧ ∀ b ∈ x.head?, isNumeralMark b = false

theorem noDigit_cons {b : UInt8} {x : Bytes} : NoDigit (b :: x) ↔ Bytes.isDigit b = false := by
  simp [NoDigit]

theorem stops_nil : Stops [] := by simp [Stops, NoDigit]

theorem stops_cons {b : UInt8} {x : Bytes} :
    Stops (b :: x) ↔ Bytes.isDigit b = false ∧ isNumeralMark b = false := by
  simp [Stops, NoDigit]

/-- Only ASCII. -/
def IsAscii (x : Bytes) : Prop := ∀ b ∈ x, b < 0x80

theorem isAscii_nil : IsAscii [] := by simp [IsAscii]

theorem isAscii_cons {b : UInt8} {x : Bytes} : IsAscii (b :: x) ↔ b < 0x80 ∧ IsAscii x :=
  List.forall_mem_cons

theorem isAscii_append {x y : Bytes} : IsAscii (x ++ y) ↔ IsAscii x ∧ IsAscii y :=
  List.forall_mem_append

theorem isAscii_of_all {x : Bytes} (h : x.all (· < 0x80) = true) : IsAscii x := by
  simpa [IsAscii] using h

theorem isAscii_digits {digits : Bytes} (h : ∀ b ∈ digits, Bytes.isDigit b = true) :
    IsAscii digits := by
  intro b hb
  have hdigit := h b hb
  rw [Bytes.isDigit, Bool.and_eq_true, decide_eq_true_eq, decide_eq_true_eq] at hdigit
  exact UInt8.lt_of_le_of_lt hdigit.2 (by decide)

/-! ## Words and numerals -/

theorem readWord_append (word x : Bytes) : readWord word (word ++ x) = .ok x := by
  induction word with
  | nil => rfl
  | cons w word ih => rw [List.cons_append, readWord, if_pos rfl, ih]

theorem readWord_cut {word s rest : Bytes} (h : readWord word s = .ok rest) : s = word ++ rest := by
  induction word generalizing s with
  | nil =>
    obtain rfl : s = rest := by simpa [readWord] using h
    rfl
  | cons w word ih =>
    cases s with
    | nil => simp [readWord] at h
    | cons b s =>
      rw [readWord] at h
      split at h
      next hb => rw [hb, ih h, List.cons_append]
      next => simp at h

theorem readDigits_append {digits x : Bytes} (hne : digits ≠ [])
    (hdigits : ∀ b ∈ digits, Bytes.isDigit b = true) (hx : NoDigit x) :
    readDigits (digits ++ x) = .ok (digits, x) := by
  obtain ⟨b, digits, rfl⟩ := List.exists_cons_of_ne_nil hne
  have hb := hdigits b List.mem_cons_self
  have htail : x.takeWhile Bytes.isDigit = [] ∧ x.dropWhile Bytes.isDigit = x := by
    cases x with
    | nil => exact ⟨rfl, rfl⟩
    | cons c x =>
      have hc := noDigit_cons.mp hx
      simp [hc]
  rw [List.cons_append, readDigits, if_pos hb, ← List.cons_append,
    List.takeWhile_append_of_pos hdigits, List.dropWhile_append_of_pos hdigits, htail.1, htail.2,
    List.append_nil]

theorem readDigits_cut {s digits rest : Bytes} (h : readDigits s = .ok (digits, rest)) :
    s = digits ++ rest ∧ digits ≠ [] ∧ (∀ b ∈ digits, Bytes.isDigit b = true) ∧ NoDigit rest := by
  unfold readDigits at h
  split at h
  · simp at h
  next b s =>
    split at h
    next hb =>
      simp only [Except.ok.injEq, Prod.mk.injEq] at h
      obtain ⟨rfl, rfl⟩ := h
      refine ⟨List.takeWhile_append_dropWhile.symm, ?_, ?_, ?_⟩
      · simp [hb]
      · intro c hc
        exact List.mem_takeWhile_imp hc
      · intro c hc
        have := List.head?_dropWhile_not Bytes.isDigit (b :: s)
        rw [Option.mem_def.mp hc] at this
        simpa using this
    next => simp at h

theorem readWhole_cut {s digits rest : Bytes} (h : readWhole s = .ok (digits, rest)) :
    s = digits ++ rest ∧ digits ≠ [] ∧ (∀ b ∈ digits, Bytes.isDigit b = true) ∧ NoDigit rest ∧
      ∀ x, NoDigit x → readWhole (digits ++ x) = .ok (digits, x) := by
  rw [readWhole] at h
  split at h
  · simp at h
  next digits' rest' hread =>
    split at h
    · simp at h
    next hzero =>
      obtain ⟨rfl, rfl⟩ : digits' = digits ∧ rest' = rest := by simpa using h
      obtain ⟨hs, hne, hdigits, hrest⟩ := readDigits_cut hread
      refine ⟨hs, hne, hdigits, hrest, fun x hx => ?_⟩
      rw [readWhole, readDigits_append hne hdigits hx]
      simp only [hzero, if_false]

theorem readFraction_cut {s rest : Bytes} {fraction : Option Bytes}
    (h : readFraction s = .ok (fraction, rest)) :
    ∃ spelled, s = spelled ++ rest ∧ IsAscii spelled ∧ (NoDigit s → NoDigit rest) ∧
      (∀ x, NoDigit x → NoDigit (spelled ++ x)) ∧
      ∀ x, NoDigit x → (∀ b ∈ x.head?, b ≠ ascii '.') →
        readFraction (spelled ++ x) = .ok (fraction, x) := by
  unfold readFraction at h
  split at h
  · obtain ⟨rfl, rfl⟩ : none = fraction ∧ [] = rest := by simpa using h
    refine ⟨[], rfl, isAscii_nil, id, fun x hx => hx, fun x _ hdot => ?_⟩
    cases x with
    | nil => rfl
    | cons c x => rw [List.nil_append, readFraction, if_neg (hdot c rfl)]
  next b s =>
    split at h
    next hb =>
      split at h
      · simp at h
      next digits rest' hread =>
        obtain ⟨rfl, rfl⟩ : some digits = fraction ∧ rest' = rest := by simpa using h
        obtain ⟨hs, hne, hdigits, hrest⟩ := readDigits_cut hread
        have hascii : IsAscii (b :: digits) :=
          isAscii_cons.mpr ⟨by rw [hb]; decide, isAscii_digits hdigits⟩
        refine ⟨b :: digits, by rw [hs]; rfl, hascii, fun _ => hrest, fun x _ => ?_, fun x hx _ => ?_⟩
        · exact noDigit_cons.mpr (by rw [hb]; decide)
        · rw [List.cons_append, readFraction, if_pos hb, readDigits_append hne hdigits hx]
    next hb =>
      obtain ⟨rfl, rfl⟩ : none = fraction ∧ b :: s = rest := by simpa using h
      refine ⟨[], rfl, isAscii_nil, id, fun x hx => hx, fun x _ hdot => ?_⟩
      cases x with
      | nil => rfl
      | cons c x => rw [List.nil_append, readFraction, if_neg (hdot c rfl)]

theorem readExponent_of_stops {x : Bytes} (hx : Stops x) : readExponent x = .ok (none, x) := by
  cases x with
  | nil => rfl
  | cons c x =>
    have hc := (stops_cons.mp hx).2
    have hc' : ¬ (c = ascii 'e' ∨ c = ascii 'E') := by
      rintro (rfl | rfl) <;> exact absurd hc (by decide)
    rw [readExponent.eq_def]
    simp only [hc', if_false]

/-- The digits of an exponent behind its sign. -/
def exponentOf (minus : Bool) (s : Bytes) : Except Fault (Option (Bool × Bytes) × Bytes) :=
  (readDigits s).map fun (digits, rest) => (some (minus, digits), rest)

/-- An exponent is a sign, if there is one, and digits, in front of which it is read again. -/
theorem readExponent_cons {b : UInt8} (hb : b = ascii 'e' ∨ b = ascii 'E') (s : Bytes) :
    ∃ sign minus after, s = sign ++ after ∧ IsAscii sign ∧
      readExponent (b :: s) = exponentOf minus after ∧
      ∀ d x, Bytes.isDigit d = true →
        readExponent (b :: (sign ++ d :: x)) = exponentOf minus (d :: x) := by
  have hnosign : ∀ c, c ≠ ascii '+' → c ≠ ascii '-' → ∀ x,
      readExponent (b :: c :: x) = exponentOf false (c :: x) := by
    intro c hplus hminus x
    rw [readExponent.eq_def]
    simp only [hb, if_true, hplus, hminus, if_false]
    rw [exponentOf]
    cases readDigits (c :: x) <;> rfl
  have hdigit : ∀ d x, Bytes.isDigit d = true →
      readExponent (b :: ([] ++ d :: x)) = exponentOf false (d :: x) := by
    intro d x hd
    refine hnosign d ?_ ?_ x <;> rintro rfl <;> exact absurd hd (by decide)
  cases s with
  | nil =>
    refine ⟨[], false, [], rfl, isAscii_nil, ?_, hdigit⟩
    rw [readExponent.eq_def]
    simp only [hb, if_true]
    rw [exponentOf]
    cases readDigits [] <;> rfl
  | cons c s =>
    by_cases hplus : c = ascii '+'
    · have hread : ∀ x, readExponent (b :: c :: x) = exponentOf false x := by
        intro x
        rw [readExponent.eq_def]
        simp only [hb, if_true, hplus]
        rw [exponentOf]
        cases readDigits x <;> rfl
      have hascii : IsAscii [c] := isAscii_cons.mpr ⟨by rw [hplus]; decide, isAscii_nil⟩
      exact ⟨[c], false, s, rfl, hascii, hread s, fun d x _ => hread (d :: x)⟩
    by_cases hminus : c = ascii '-'
    · have hdifferent : ascii '-' ≠ ascii '+' := by decide
      have hread : ∀ x, readExponent (b :: c :: x) = exponentOf true x := by
        intro x
        rw [readExponent.eq_def]
        simp only [hb, if_true, hminus, hdifferent, if_false]
        rw [exponentOf]
        cases readDigits x <;> rfl
      have hascii : IsAscii [c] := isAscii_cons.mpr ⟨by rw [hminus]; decide, isAscii_nil⟩
      exact ⟨[c], true, s, rfl, hascii, hread s, fun d x _ => hread (d :: x)⟩
    · exact ⟨[], false, c :: s, rfl, isAscii_nil, hnosign c hplus hminus s, hdigit⟩

theorem readExponent_cut {s rest : Bytes} {exponent : Option (Bool × Bytes)}
    (h : readExponent s = .ok (exponent, rest)) :
    ∃ spelled, s = spelled ++ rest ∧ IsAscii spelled ∧ (NoDigit s → NoDigit rest) ∧
      (∀ x, Stops x → NoDigit (spelled ++ x) ∧ ∀ b ∈ (spelled ++ x).head?, b ≠ ascii '.') ∧
      ∀ x, Stops x → readExponent (spelled ++ x) = .ok (exponent, x) := by
  have hdot : ∀ x, Stops x → ∀ b ∈ x.head?, b ≠ ascii '.' := by
    rintro x hx b hb rfl
    exact absurd (hx.2 _ hb) (by decide)
  by_cases hmark : ∃ b after, s = b :: after ∧ (b = ascii 'e' ∨ b = ascii 'E')
  · obtain ⟨b, after, rfl, hb⟩ := hmark
    obtain ⟨sign, minus, after', rfl, hsign, hread, hagain⟩ := readExponent_cons hb after
    rw [hread, exponentOf] at h
    cases hdigits : readDigits after' with
    | error fault => simp [hdigits, Except.map] at h
    | ok found =>
      obtain ⟨digits, rest'⟩ := found
      obtain ⟨rfl, rfl⟩ : some (minus, digits) = exponent ∧ rest' = rest := by
        simpa [hdigits, Except.map] using h
      obtain ⟨rfl, hne, hall, hrest⟩ := readDigits_cut hdigits
      have hascii : IsAscii (b :: (sign ++ digits)) :=
        isAscii_cons.mpr ⟨by obtain rfl | rfl := hb <;> decide,
          isAscii_append.mpr ⟨hsign, isAscii_digits hall⟩⟩
      refine ⟨b :: (sign ++ digits), by simp, hascii, fun _ => hrest, fun x _ => ⟨?_, ?_⟩,
        fun x hx => ?_⟩
      · exact noDigit_cons.mpr (by obtain rfl | rfl := hb <;> decide)
      · intro c hc
        obtain rfl : b = c := by simpa using hc
        obtain rfl | rfl := hb <;> decide
      · obtain ⟨d, digits', rfl⟩ := List.exists_cons_of_ne_nil hne
        have hcut : exponentOf minus (d :: digits' ++ x) = .ok (some (minus, d :: digits'), x) := by
          rw [exponentOf, readDigits_append hne hall hx.1]
          rfl
        rw [List.cons_append, List.append_assoc]
        exact (hagain d (digits' ++ x) (hall d List.mem_cons_self)).trans hcut
  · have hnone : readExponent s = .ok (none, s) := by
      cases s with
      | nil => rfl
      | cons b s =>
        have hb : ¬ (b = ascii 'e' ∨ b = ascii 'E') := fun hb => hmark ⟨b, s, rfl, hb⟩
        rw [readExponent.eq_def]
        simp only [hb, if_false]
    obtain ⟨rfl, rfl⟩ : none = exponent ∧ s = rest := by simpa [hnone] using h
    exact ⟨[], rfl, isAscii_nil, id, fun x hx => ⟨hx.1, hdot x hx⟩,
      fun x hx => readExponent_of_stops hx⟩

theorem readMinus_cut (s : Bytes) :
    ∃ spelled, s = spelled ++ (readMinus s).2 ∧ IsAscii spelled ∧
      ∀ d x, Bytes.isDigit d = true → readMinus (spelled ++ d :: x) = ((readMinus s).1, d :: x) := by
  have hdigit : ∀ d x, Bytes.isDigit d = true → readMinus (d :: x) = (false, d :: x) := by
    intro d x hd
    have hne : d ≠ ascii '-' := by
      rintro rfl
      exact absurd hd (by decide)
    rw [readMinus, if_neg hne]
  cases s with
  | nil => exact ⟨[], rfl, isAscii_nil, hdigit⟩
  | cons b s =>
    by_cases hb : b = ascii '-'
    · have hread : ∀ x, readMinus (b :: x) = (true, x) := fun x => by rw [readMinus, if_pos hb]
      have hascii : IsAscii [b] := isAscii_cons.mpr ⟨by rw [hb]; decide, isAscii_nil⟩
      refine ⟨[b], by rw [hread]; rfl, hascii, fun d x _ => ?_⟩
      rw [hread]
      exact hread (d :: x)
    · have hread : readMinus (b :: s) = (false, b :: s) := by rw [readMinus, if_neg hb]
      exact ⟨[], by rw [hread]; rfl, isAscii_nil, by rw [hread]; exact hdigit⟩

/-- A numeral is read the same in front of anything that does not go on with it. -/
theorem readNumeral_cut {s rest : Bytes} {n : Numeral} (h : readNumeral s = .ok (n, rest)) :
    ∃ spelled, s = spelled ++ rest ∧ IsAscii spelled ∧ NoDigit rest ∧
      ∀ x, Stops x → readNumeral (spelled ++ x) = .ok (n, x) := by
  rw [readNumeral] at h
  split at h
  · simp at h
  next whole rest₁ hwhole =>
    split at h
    · simp at h
    next fraction rest₂ hfraction =>
      split at h
      · simp at h
      next exponent rest₃ hexponent =>
        obtain ⟨rfl, rfl⟩ : ⟨(readMinus s).1, whole, fraction, exponent⟩ = n ∧ rest₃ = rest := by
          simpa using h
        obtain ⟨minus, hminus, hascii₁, hminus'⟩ := readMinus_cut s
        obtain ⟨hs₁, hne, hall, hrest₁, hwhole'⟩ := readWhole_cut hwhole
        obtain ⟨point, hs₂, hascii₂, hrest₂, hpoint, hfraction'⟩ := readFraction_cut hfraction
        obtain ⟨mark, hs₃, hascii₃, hrest₃, hmark, hexponent'⟩ := readExponent_cut hexponent
        have hascii : IsAscii (minus ++ (whole ++ (point ++ mark))) := by
          simp only [isAscii_append]
          exact ⟨hascii₁, isAscii_digits hall, hascii₂, hascii₃⟩
        refine ⟨minus ++ (whole ++ (point ++ mark)), ?_, hascii, hrest₃ (hrest₂ hrest₁), fun x hx => ?_⟩
        · conv_lhs => rw [hminus, hs₁, hs₂, hs₃]
          simp only [List.append_assoc]
        · obtain ⟨hmarkDigit, hmarkDot⟩ := hmark x hx
          obtain ⟨d, whole', rfl⟩ := List.exists_cons_of_ne_nil hne
          have hsigned : readMinus (minus ++ (d :: whole' ++ (point ++ (mark ++ x)))) =
              ((readMinus s).1, d :: whole' ++ (point ++ (mark ++ x))) :=
            hminus' d _ (hall d List.mem_cons_self)
          simp only [List.append_assoc]
          rw [readNumeral, hsigned]
          simp only [hwhole' _ (hpoint _ hmarkDigit), hfraction' _ hmarkDigit hmarkDot, hexponent' x hx]

/-! ## Strings -/

/-- A string is read the same whatever stands behind its closing quote. -/
theorem readBody_cut {s body rest : Bytes} (h : readBody s = some (body, rest)) :
    s = body ++ quote :: rest ∧ ∀ x, readBody (body ++ quote :: x) = some (body, x) := by
  fun_induction readBody s generalizing body rest with
  | case1 => simp at h
  | case2 s =>
    obtain ⟨rfl, rfl⟩ : [] = body ∧ s = rest := by simpa using h
    refine ⟨rfl, fun x => ?_⟩
    rw [List.nil_append, readBody.eq_def]
    simp only [if_true]
  | case3 => simp at h
  | case4 => simp at h
  | case5 => simp at h
  | case6 h₁ h₂ h₃ h₄ after value hvalue _ _ ih =>
    obtain ⟨⟨body', rest'⟩, hbody, heq⟩ := Option.map_eq_some_iff.mp h
    obtain ⟨rfl, rfl⟩ := Prod.mk.inj heq
    obtain ⟨rfl, hagain⟩ := ih hbody
    refine ⟨rfl, fun x => (readBody_hex hvalue (body' ++ quote :: x)).trans ?_⟩
    rw [hagain]
    rfl
  | case7 => simp at h
  | case8 => simp at h
  | case9 e after hu value he _ _ ih =>
    obtain ⟨⟨body', rest'⟩, hbody, heq⟩ := Option.map_eq_some_iff.mp h
    obtain ⟨rfl, rfl⟩ := Prod.mk.inj heq
    obtain ⟨rfl, hagain⟩ := ih hbody
    refine ⟨rfl, fun x => (readBody_escape hu he (body' ++ quote :: x)).trans ?_⟩
    rw [hagain]
    rfl
  | case10 b after hquote hlow hbackslash ih =>
    obtain ⟨⟨body', rest'⟩, hbody, heq⟩ := Option.map_eq_some_iff.mp h
    obtain ⟨rfl, rfl⟩ := Prod.mk.inj heq
    obtain ⟨rfl, hagain⟩ := ih hbody
    have hplain : ∀ c ∈ [b], IsPlain c := by
      intro c hc
      obtain rfl := List.mem_singleton.mp hc
      exact ⟨hquote, hlow, hbackslash⟩
    refine ⟨rfl, fun x => (readBody_plain hplain (body' ++ quote :: x)).trans ?_⟩
    rw [hagain]
    rfl

/-! ## Tokens -/

/-- A token that is no fault. -/
def Token.isGood : Token → Bool
  | .badString _ | .badScalar _ => false
  | _ => true

/-- A token that ends only where something else begins. -/
def Token.isNumber : Token → Bool
  | .number _ => true
  | _ => false

/-- How a good token is spelled: a string by its body between quotes, any other in ASCII. -/
def Token.SpelledAs (text : Bytes) : Token → Prop
  | .string body =>
    text = quote :: (body ++ [quote]) ∧ readBody (body ++ [quote]) = some (body, [])
  | _ => IsAscii text

theorem punctuation?_cut {b : UInt8} {token : Token} (h : punctuation? b = some token) :
    token.isNumber = false ∧ token.SpelledAs [b] := by
  have hascii : b < 0x80 → IsAscii [b] := fun hb => isAscii_cons.mpr ⟨hb, isAscii_nil⟩
  unfold punctuation? at h
  repeat' split at h
  all_goals
    simp only [Option.some.injEq, reduceCtorEq] at h
  all_goals
    subst b token
    exact ⟨rfl, hascii (by decide)⟩

theorem word?_cut {b : UInt8} {word : Bytes} {token : Token} (h : word? b = some (word, token)) :
    token.isNumber = false ∧ token.SpelledAs (b :: word) := by
  unfold word? at h
  repeat' split at h
  all_goals
    simp only [Option.some.injEq, Prod.mk.injEq, reduceCtorEq] at h
  all_goals
    obtain ⟨rfl, rfl⟩ := h
    subst b
    exact ⟨rfl, isAscii_of_all (by decide)⟩

/-- A token that starts with a byte ends at a point of the bytes behind it, and is read the same in front
of anything that does not go on with it. -/
structure IsCut (b : UInt8) (s : Bytes) (token : Token) (tail rest : Bytes) : Prop where
  append : s = tail ++ rest
  spelled : token.SpelledAs (b :: tail)
  stops : token.isNumber = true → NoDigit rest
  again : ∀ x, (token.isNumber = true → Stops x) → readToken b (tail ++ x) = (token, x)

theorem isCut_punctuation {b : UInt8} {token : Token} (h : punctuation? b = some token) (s : Bytes) :
    IsCut b s token [] s := by
  obtain ⟨hnumber, hspelled⟩ := punctuation?_cut h
  refine ⟨rfl, hspelled, by simp [hnumber], fun x _ => ?_⟩
  rw [List.nil_append, readToken, h]

theorem isCut_word {b : UInt8} {s word rest : Bytes} {token : Token} (hmark : punctuation? b = none)
    (hword : word? b = some (word, token)) (h : readWord word s = .ok rest) :
    IsCut b s token word rest := by
  obtain ⟨hnumber, hspelled⟩ := word?_cut hword
  refine ⟨readWord_cut h, hspelled, by simp [hnumber], fun x _ => ?_⟩
  rw [readToken, hmark, hword]
  simp only [readWord_append]

theorem isCut_string {s body rest : Bytes} (h : readBody s = some (body, rest)) :
    IsCut quote s (.string body) (body ++ [quote]) rest := by
  have hmark : punctuation? quote = none ∧ word? quote = none := by decide
  obtain ⟨rfl, hagain⟩ := readBody_cut h
  refine ⟨by simp, ⟨rfl, hagain []⟩, by simp [Token.isNumber], fun x _ => ?_⟩
  rw [readToken, hmark.1, hmark.2]
  simp only [if_true, List.append_assoc, List.singleton_append, hagain]

theorem isCut_number {b : UInt8} {s rest : Bytes} {n : Numeral} (hmark : punctuation? b = none)
    (hword : word? b = none) (hquote : b ≠ quote) (h : readNumeral (b :: s) = .ok (n, rest)) :
    ∃ tail, IsCut b s (.number n) tail rest := by
  obtain ⟨spelled, hspelled, hascii, hrest, hagain⟩ := readNumeral_cut h
  obtain ⟨tail, rfl, rfl⟩ : ∃ tail, spelled = b :: tail ∧ s = tail ++ rest := by
    cases spelled with
    | nil =>
      have hlength := readNumeral_length h
      rw [hspelled] at hlength
      exact absurd hlength (Nat.lt_irrefl _)
    | cons c tail =>
      obtain ⟨rfl, htail⟩ := List.cons.inj hspelled
      exact ⟨tail, rfl, htail⟩
  refine ⟨tail, rfl, hascii, fun _ => hrest, fun x hx => ?_⟩
  rw [readToken, hmark, hword]
  simp only [hquote, if_false]
  rw [← List.cons_append, hagain x (hx rfl)]

theorem readToken_cut {b : UInt8} {s rest : Bytes} {token : Token}
    (h : readToken b s = (token, rest)) (hgood : token.isGood = true) :
    ∃ tail, IsCut b s token tail rest := by
  rw [readToken] at h
  split at h
  next mark hmark =>
    obtain ⟨rfl, rfl⟩ := Prod.mk.inj h
    exact ⟨[], isCut_punctuation hmark s⟩
  next hmark =>
    split at h
    next word mark hword =>
      split at h
      next after hread =>
        obtain ⟨rfl, rfl⟩ := Prod.mk.inj h
        exact ⟨word, isCut_word hmark hword hread⟩
      next fault _ =>
        obtain ⟨rfl, -⟩ := Prod.mk.inj h
        simp [Token.isGood] at hgood
    next hword =>
      split at h
      next hquote =>
        split at h
        next body after hread =>
          obtain ⟨rfl, rfl⟩ := Prod.mk.inj h
          exact ⟨body ++ [quote], hquote ▸ isCut_string hread⟩
        next =>
          obtain ⟨rfl, -⟩ := Prod.mk.inj h
          simp [Token.isGood] at hgood
      next hquote =>
        split at h
        next n after hread =>
          obtain ⟨rfl, rfl⟩ := Prod.mk.inj h
          exact isCut_number hmark hword hquote hread
        next =>
          obtain ⟨rfl, -⟩ := Prod.mk.inj h
          simp [Token.isGood] at hgood

/-- No good token starts with a byte that only goes on a numeral. -/
theorem isNumeralMark_of_isGood {b : UInt8} {s rest : Bytes} {token : Token}
    (h : readToken b s = (token, rest)) (hgood : token.isGood = true) : isNumeralMark b = false := by
  have hmarks : ∀ b, isNumeralMark b = true → punctuation? b = none ∧ word? b = none ∧ b ≠ quote ∧
      b ≠ ascii '-' ∧ Bytes.isDigit b = false := by
    intro b hb
    simp only [isNumeralMark, Bool.or_eq_true, decide_eq_true_eq] at hb
    obtain (rfl | rfl) | rfl := hb <;> decide
  by_contra hb
  obtain ⟨hmark, hword, hquote, hminus, hdigit⟩ := hmarks b (by simpa using hb)
  have hnumeral : readNumeral (b :: s) = .error .malformed := by
    rw [readNumeral, readMinus, if_neg hminus, readWhole, readDigits.eq_def]
    simp only [hdigit, Bool.false_eq_true, if_false]
  rw [readToken, hmark, hword] at h
  simp only [hquote, if_false, hnumeral] at h
  obtain ⟨rfl, -⟩ := Prod.mk.inj h
  simp [Token.isGood] at hgood

/-! ## Lexemes -/

/-- A lexeme behind other blanks. -/
def Lexeme.behind (l : Lexeme) (gap : Bytes) : Lexeme := { l with gap }

theorem spelling_append (text x : Bytes) : spelling (text ++ x) x = text := by
  rw [spelling, List.length_append, Nat.add_sub_cancel, List.take_left]

/-- A good lexeme is read the same in front of anything that does not go on with it, and behind any
blanks. -/
theorem readLexeme_cut {s rest : Bytes} {l : Lexeme} (h : readLexeme s = some (l, rest))
    (hgood : l.token.isGood = true) :
    (∃ b tail, l.text = b :: tail ∧ isNumeralMark b = false) ∧ l.token.SpelledAs l.text ∧
      (∀ b ∈ l.gap, isGap b = true) ∧ (l.token.isNumber = true → NoDigit rest) ∧
      ∀ gap x, (∀ b ∈ gap, isGap b = true) → (l.token.isNumber = true → Stops x) →
        readLexeme (gap ++ (l.text ++ x)) = some (l.behind gap, x) := by
  rw [readLexeme] at h
  split at h
  · simp at h
  next b after hs =>
    obtain ⟨token, rest', hread⟩ : ∃ token rest', readToken b after = (token, rest') := ⟨_, _, rfl⟩
    rw [hread] at h
    simp only [Option.some.injEq, Prod.mk.injEq] at h
    obtain ⟨rfl, rfl⟩ := h
    obtain ⟨tail, rfl, hspelled, hrest, hagain⟩ := readToken_cut hread hgood
    have hspelling : ∀ x, spelling (b :: (tail ++ x)) x = b :: tail := spelling_append (b :: tail)
    have hb : isGap b = false := by
      have := List.head?_dropWhile_not isGap s
      rw [hs] at this
      simpa using this
    refine ⟨⟨b, tail, hspelling rest', isNumeralMark_of_isGood hread hgood⟩,
      (hspelling rest').symm ▸ hspelled, fun c hc => List.mem_takeWhile_imp hc, hrest, fun gap x hgap hx => ?_⟩
    have hdrop : (gap ++ b :: (tail ++ x)).dropWhile isGap = b :: (tail ++ x) := by
      rw [List.dropWhile_append_of_pos hgap, List.dropWhile_cons, if_neg (by simp [hb])]
    have htake : (gap ++ b :: (tail ++ x)).takeWhile isGap = gap := by
      rw [List.takeWhile_append_of_pos hgap, List.takeWhile_cons, if_neg (by simp [hb]),
        List.append_nil]
    rw [hspelling, List.cons_append, readLexeme, hdrop]
    simp only [hagain x hx, hspelling, htake]
    rfl

/-- The lexemes of a text without the blanks in front of the first. -/
def dropGap : List Lexeme → List Lexeme
  | [] => []
  | l :: ls => l.behind [] :: ls

theorem lex_cons {s rest : Bytes} {l : Lexeme} (h : readLexeme s = some (l, rest)) :
    lex s = l :: lex rest := by
  rw [lex]
  split
  next hread => simp [h] at hread
  next hread =>
    obtain ⟨rfl, rfl⟩ : l = _ ∧ rest = _ := by simpa [h] using hread
    rfl

theorem lex_nil {s : Bytes} (h : readLexeme s = none) : lex s = [] := by
  rw [lex]
  split
  next => rfl
  next hread => simp [h] at hread

theorem lex_empty : lex [] = [] := lex_nil rfl

/-- The lexeme of a token with no blanks in front. -/
theorem lex_token {b : UInt8} {tail x : Bytes} {token : Token} (hb : isGap b = false)
    (h : readToken b (tail ++ x) = (token, x)) :
    lex (b :: (tail ++ x)) = ⟨[], b :: tail, token⟩ :: lex x := by
  have hspelling := spelling_append (b :: tail) x
  refine lex_cons ?_
  rw [readLexeme, List.dropWhile_cons, List.takeWhile_cons, hb]
  simp only [Bool.false_eq_true, if_false, h]
  rw [List.cons_append] at hspelling
  rw [hspelling]

/-- A punctuation mark is a lexeme. -/
theorem lex_punctuation {b : UInt8} {token : Token} (h : punctuation? b = some token)
    (hb : isGap b = false) (x : Bytes) : lex (b :: x) = ⟨[], [b], token⟩ :: lex x := by
  have hread : readToken b ([] ++ x) = (token, x) := by
    rw [List.nil_append, readToken, h]
  exact lex_token hb hread

/-- A quoted text is a lexeme. -/
theorem lex_quoted (s : String) (x : Bytes) :
    lex (quoted s ++ x) = ⟨[], quoted s, .string (quotedBody s)⟩ :: lex x := by
  have hcut := isCut_string (readBody_quotedBody s x)
  exact lex_token (by decide) (hcut.again x (by simp [Token.isNumber]))

theorem spell_eq (ls : List Lexeme) : spell ls = (dropGap ls).flatMap Lexeme.bytes := by
  cases ls with
  | nil => rfl
  | cons l ls => rfl

/-- How the good lexemes of a text are spelled. -/
theorem spelledAs_of_mem_lex {s : Bytes} {l : Lexeme} (hl : l ∈ lex s)
    (hgood : l.token.isGood = true) :
    l.token.SpelledAs l.text ∧ (∀ b ∈ l.gap, isGap b = true) ∧ l.text.length ≤ s.length := by
  fun_induction lex s with
  | case1 => simp at hl
  | case2 s first rest h ih =>
    have hlength := congrArg List.length (bytes_append_of_readLexeme h)
    rw [List.length_append, Lexeme.bytes, List.length_append] at hlength
    obtain rfl | hl := List.mem_cons.mp hl
    · obtain ⟨-, hspelled, hgap, -⟩ := readLexeme_cut h hgood
      exact ⟨hspelled, hgap, by omega⟩
    · obtain ⟨hspelled, hgap, hle⟩ := ih hl
      exact ⟨hspelled, hgap, by omega⟩

theorem lex_eq_cons {s : Bytes} {l : Lexeme} {ls : List Lexeme} (h : lex s = l :: ls) :
    ∃ rest, readLexeme s = some (l, rest) ∧ lex rest = ls := by
  cases hread : readLexeme s with
  | none => simp [lex_nil hread] at h
  | some found =>
    obtain ⟨first, rest⟩ := found
    rw [lex_cons hread] at h
    obtain ⟨rfl, hrest⟩ := List.cons.inj h
    exact ⟨rest, rfl, hrest⟩

/-- Where a text is cut between two lexemes, those behind the cut are the lexemes of the bytes behind it. -/
theorem exists_lex_eq {s : Bytes} {before ls : List Lexeme} (h : lex s = before ++ ls) :
    ∃ rest, s = before.flatMap Lexeme.bytes ++ rest ∧ lex rest = ls := by
  induction before generalizing s with
  | nil => exact ⟨s, rfl, h⟩
  | cons l before ih =>
    obtain ⟨rest, hread, hrest⟩ := lex_eq_cons h
    obtain ⟨behind, rfl, hbehind⟩ := ih hrest
    refine ⟨behind, ?_, hbehind⟩
    rw [List.flatMap_cons, List.append_assoc, bytes_append_of_readLexeme hread]

variable {s x : Bytes} {taken after : List Lexeme}

/-- What follows a number does not go on with it. -/
theorem stops_lex (h : lex s = taken ++ after) (hgood : ∀ l ∈ taken, l.token.isGood = true)
    (hs : NoDigit s) (hx : Stops x) : Stops (taken.flatMap Lexeme.bytes ++ x) := by
  cases taken with
  | nil => exact hx
  | cons l taken =>
    obtain ⟨rest, hread, -⟩ := lex_eq_cons h
    obtain ⟨⟨b, tail, htext, hmark⟩, -, hgap, -⟩ := readLexeme_cut hread (hgood l List.mem_cons_self)
    obtain ⟨c, bytes, hbytes, hc⟩ : ∃ c bytes, l.bytes = c :: bytes ∧ isNumeralMark c = false := by
      cases hgap' : l.gap with
      | nil => exact ⟨b, tail, by rw [Lexeme.bytes, hgap', htext]; rfl, hmark⟩
      | cons c gap =>
        have hblank : isGap c = true := hgap c (by rw [hgap']; exact List.mem_cons_self)
        refine ⟨c, gap ++ l.text, by rw [Lexeme.bytes, hgap']; rfl, ?_⟩
        rw [← Bool.not_eq_true]
        intro hc
        simp only [isNumeralMark, Bool.or_eq_true, decide_eq_true_eq] at hc
        obtain (rfl | rfl) | rfl := hc <;> exact absurd hblank (by decide)
    have hsame := bytes_append_of_readLexeme hread
    rw [hbytes] at hsame
    rw [← hsame, List.cons_append, noDigit_cons] at hs
    rw [List.flatMap_cons, hbytes, List.append_assoc, List.cons_append, stops_cons]
    exact ⟨hs, hc⟩

/-- The first lexeme of a text is read again behind other blanks and in front of those that follow it. -/
theorem lex_behind {rest gap : Bytes} {l : Lexeme} (h : readLexeme s = some (l, rest))
    (hl : l.token.isGood = true) (hrest : lex rest = taken ++ after)
    (hgood : ∀ l ∈ taken, l.token.isGood = true) (hx : Stops x) (hgap : ∀ b ∈ gap, isGap b = true) :
    lex ((l.behind gap).bytes ++ (taken.flatMap Lexeme.bytes ++ x)) =
      l.behind gap :: lex (taken.flatMap Lexeme.bytes ++ x) := by
  obtain ⟨-, -, -, hdigit, hagain⟩ := readLexeme_cut h hl
  have hread := hagain gap (taken.flatMap Lexeme.bytes ++ x) hgap fun hnumber =>
    stops_lex hrest hgood (hdigit hnumber) hx
  rw [← List.append_assoc] at hread
  exact lex_cons hread

/-- Lexemes of a text are read again in front of anything that does not go on with the last. -/
theorem lex_append (h : lex s = taken ++ after) (hgood : ∀ l ∈ taken, l.token.isGood = true)
    (hx : Stops x) : lex (taken.flatMap Lexeme.bytes ++ x) = taken ++ lex x := by
  induction taken generalizing s with
  | nil => rfl
  | cons l taken ih =>
    rw [List.forall_mem_cons] at hgood
    obtain ⟨rest, hread, hrest⟩ := lex_eq_cons h
    obtain ⟨-, -, hgap, -⟩ := readLexeme_cut hread hgood.1
    have hfirst := lex_behind hread hgood.1 hrest hgood.2 hx hgap
    rw [List.flatMap_cons, List.append_assoc, List.cons_append, ← ih hrest hgood.2]
    exact hfirst

/-- So are they, wherever they stand, when they are spelled without the blanks in front of the first. -/
theorem lex_spell_of_infix {before : List Lexeme} (h : lex s = before ++ (taken ++ after))
    (hgood : ∀ l ∈ taken, l.token.isGood = true) (hx : Stops x) :
    lex (spell taken ++ x) = dropGap taken ++ lex x := by
  rw [spell_eq]
  cases taken with
  | nil => rfl
  | cons l taken =>
    obtain ⟨s', -, hs'⟩ := exists_lex_eq h
    obtain ⟨rest, hread, hrest⟩ := lex_eq_cons hs'
    rw [List.forall_mem_cons] at hgood
    have hnone : ∀ b ∈ ([] : Bytes), isGap b = true := by simp
    have hfirst := lex_behind hread hgood.1 hrest hgood.2 hx hnone
    rw [dropGap, List.flatMap_cons, List.append_assoc, hfirst, lex_append hrest hgood.2 hx]
    rfl

theorem lex_spell (hgood : ∀ l ∈ lex s, l.token.isGood = true) (hx : Stops x) :
    lex (spell (lex s) ++ x) = dropGap (lex s) ++ lex x := by
  have hwhole : lex s = [] ++ (lex s ++ []) := by
    rw [List.nil_append, List.append_nil]
  exact lex_spell_of_infix hwhole hgood hx

end EventReplay.Json
