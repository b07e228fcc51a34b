import EventReplay.Text.Utf8

/-!
# Lexemes of JSON text

`lex` cuts bytes into lexemes. Each lexeme keeps the blanks in front of it and its own spelling, so
nothing is lost, and has a token that says what it is. Text that is no lexeme ends the cut with a
token that holds the fault.

Strings and numbers are only checked against their grammar here. What a string says (`unquote`) and
which number a numeral is are questions of their own, and have answers that the grammar does not
promise: a string can hold half a surrogate pair, a numeral can lie beyond every number.
-/

set_option autoImplicit false

namespace EventReplay.Json

/-- How JSON text fails. -/
inductive Fault where
  /-- It is not JSON. -/
  | malformed
  /-- It ends too early. -/
  | truncated
  /-- It is JSON of the wrong shape. -/
  | mismatched
deriving DecidableEq, Repr

/-- The parts of a written number. -/
structure Numeral where
  negative : Bool
  whole : Bytes
  fraction : Option Bytes
  /-- The exponent's digits, and whether a minus stands in front of them. -/
  exponent : Option (Bool × Bytes)
deriving DecidableEq, Repr

/-- What a lexeme is. -/
inductive Token where
  | openArray
  | closeArray
  | openObject
  | closeObject
  | comma
  | colon
  | null
  | bool (b : Bool)
  | number (n : Numeral)
  /-- A string, given by what stands between its quotes. -/
  | string (body : Bytes)
  /-- What starts like a string and is none. -/
  | badString (fault : Fault)
  /-- What starts in another way and is no lexeme. -/
  | badScalar (fault : Fault)
deriving DecidableEq, Repr

/-- A token as it stands in the text. -/
structure Lexeme where
  /-- The blanks in front. -/
  gap : Bytes
  /-- The spelling. -/
  text : Bytes
  token : Token
deriving DecidableEq, Repr

/-- Space, tab, line feed or carriage return. -/
def isGap (b : UInt8) : Bool := b = 0x20 || b = 0x09 || b = 0x0A || b = 0x0D

/-! ## Words and numerals -/

/-- What follows a word, or the fault where the text leaves the word. -/
def readWord : Bytes → Bytes → Except Fault Bytes
  | [], rest => .ok rest
  | _ :: _, [] => .error .truncated
  | w :: word, b :: rest => if b = w then readWord word rest else .error .malformed

/-- The digits at the front, at least one, and the rest. -/
def readDigits (s : Bytes) : Except Fault (Bytes × Bytes) :=
  match s with
  | [] => .error .truncated
  | b :: _ =>
    if Bytes.isDigit b then .ok (s.takeWhile Bytes.isDigit, s.dropWhile Bytes.isDigit)
    else .error .malformed

/-- The whole part at the front: one zero, or digits that do not start with zero. -/
def readWhole (s : Bytes) : Except Fault (Bytes × Bytes) :=
  match readDigits s with
  | .error fault => .error fault
  | .ok (digits, rest) =>
    if digits.head? = some (ascii '0') ∧ digits.length ≠ 1 then .error .malformed
    else .ok (digits, rest)

/-- The fraction at the front, if a point starts one. -/
def readFraction (s : Bytes) : Except Fault (Option Bytes × Bytes) :=
  match s with
  | [] => .ok (none, [])
  | b :: rest =>
    if b = ascii '.' then
      match readDigits rest with
      | .error fault => .error fault
      | .ok (digits, rest) => .ok (some digits, rest)
    else .ok (none, s)

/-- The exponent at the front, if an `e` starts one. -/
def readExponent (s : Bytes) : Except Fault (Option (Bool × Bytes) × Bytes) :=
  match s with
  | [] => .ok (none, [])
  | b :: rest =>
    if b = ascii 'e' ∨ b = ascii 'E' then
      let (minus, digits) :=
        match rest with
        | [] => (false, [])
        | sign :: digits =>
          if sign = ascii '+' then (false, digits)
          else if sign = ascii '-' then (true, digits)
          else (false, rest)
      match readDigits digits with
      | .error fault => .error fault
      | .ok (digits, rest) => .ok (some (minus, digits), rest)
    else .ok (none, s)

/-- Whether a minus stands at the front, and what follows it. -/
def readMinus : Bytes → Bool × Bytes
  | [] => (false, [])
  | b :: rest => if b = ascii '-' then (true, rest) else (false, b :: rest)

/-- The numeral at the front. -/
def readNumeral (s : Bytes) : Except Fault (Numeral × Bytes) :=
  match readWhole (readMinus s).2 with
  | .error fault => .error fault
  | .ok (whole, rest) =>
    match readFraction rest with
    | .error fault => .error fault
    | .ok (fraction, rest) =>
      match readExponent rest with
      | .error fault => .error fault
      | .ok (exponent, rest) => .ok (⟨(readMinus s).1, whole, fraction, exponent⟩, rest)

/-! ## Strings -/

/-- The quotation mark. -/
def quote : UInt8 := 0x22

/-- The backslash. -/
def backslash : UInt8 := 0x5C

/-- What a backslash and one more byte stand for. -/
def simpleEscape? (b : UInt8) : Option UInt8 :=
  if b = quote ∨ b = backslash ∨ b = ascii '/' then some b
  else if b = ascii 'b' then some 0x08
  else if b = ascii 'f' then some 0x0C
  else if b = ascii 'n' then some 0x0A
  else if b = ascii 'r' then some 0x0D
  else if b = ascii 't' then some 0x09
  else none

/-- The value of a hexadecimal digit. -/
def hexDigit? (b : UInt8) : Option Nat :=
  let n := b.toNat
  if 0x30 ≤ n ∧ n ≤ 0x39 then some (n - 0x30)
  else if 0x41 ≤ n ∧ n ≤ 0x46 then some (n - 0x41 + 10)
  else if 0x61 ≤ n ∧ n ≤ 0x66 then some (n - 0x61 + 10)
  else none

/-- The value of four hexadecimal digits. -/
def hexValue? (a b c d : UInt8) : Option Nat := do
  let a ← hexDigit? a
  let b ← hexDigit? b
  let c ← hexDigit? c
  let d ← hexDigit? d
  return ((a * 16 + b) * 16 + c) * 16 + d

/-- What stands before the closing quote, and what follows it. -/
def readBody : Bytes → Option (Bytes × Bytes)
  | [] => none
  | b :: rest =>
    if b = quote then some ([], rest)
    else if b < 0x20 then none
    else if b = backslash then
      match rest with
      | [] => none
      | e :: rest₁ =>
        if e = ascii 'u' then
          match rest₁ with
          | h₁ :: h₂ :: h₃ :: h₄ :: rest₂ =>
            match hexValue? h₁ h₂ h₃ h₄ with
            | none => none
            | some _ =>
              (readBody rest₂).map fun (body, rest) =>
                (b :: e :: h₁ :: h₂ :: h₃ :: h₄ :: body, rest)
          | _ => none
        else
          match simpleEscape? e with
          | none => none
          | some _ => (readBody rest₁).map fun (body, rest) => (b :: e :: body, rest)
    else (readBody rest).map fun (body, rest) => (b :: body, rest)

/-- The bytes that a string's body says, read up to the closing quote. A character outside the first
plane is written as two escapes, a high and a low surrogate; a surrogate that stands alone is a
fault. -/
def unquote : Bytes → Except Fault Bytes
  | [] => .error .truncated
  | b :: rest =>
    if b = quote then .ok []
    else if b < 0x20 then .error .malformed
    else if b = backslash then
      match rest with
      | [] => .error .truncated
      | e :: rest₁ =>
        if e = ascii 'u' then
          match rest₁ with
          | h₁ :: h₂ :: h₃ :: h₄ :: rest₂ =>
            match hexValue? h₁ h₂ h₃ h₄ with
            | none => .error .malformed
            | some high =>
              if 0xDC00 ≤ high ∧ high ≤ 0xDFFF then .error .malformed
              else if 0xD800 ≤ high ∧ high ≤ 0xDBFF then
                match rest₂ with
                | [] => .error .truncated
                | [x] => if x = backslash then .error .truncated else .error .malformed
                | x :: u :: rest₃ =>
                  if x ≠ backslash ∨ u ≠ ascii 'u' then .error .malformed
                  else
                    match rest₃ with
                    | l₁ :: l₂ :: l₃ :: l₄ :: rest₄ =>
                      match hexValue? l₁ l₂ l₃ l₄ with
                      | none => .error .malformed
                      | some low =>
                        if 0xDC00 ≤ low ∧ low ≤ 0xDFFF then
                          (unquote rest₄).map fun said =>
                            String.utf8EncodeChar (Char.ofNat
                              (0x10000 + (high - 0xD800) * 0x400 + (low - 0xDC00))) ++ said
                        else .error .malformed
                    | _ => .error .truncated
              else
                (unquote rest₂).map fun said => String.utf8EncodeChar (Char.ofNat high) ++ said
          | _ => .error .truncated
        else
          match simpleEscape? e with
          | none => .error .malformed
          | some c => (unquote rest₁).map fun said => c :: said
    else (unquote rest).map fun said => b :: said

/-- The text that a string's body says. -/
def textOf? (body : Bytes) : Option String :=
  match unquote (body ++ [quote]) with
  | .error _ => none
  | .ok said => Utf8.decode? said

/-- The fault of what follows an opening quote and is no string. -/
def stringFault (s : Bytes) : Fault :=
  match unquote s with
  | .error fault => fault
  | .ok _ => .malformed

/-! ## The cut -/

/-- The spelling of what stands between two points of the text. -/
def spelling (s rest : Bytes) : Bytes := s.take (s.length - rest.length)

/-- The token of a punctuation mark. -/
def punctuation? (b : UInt8) : Option Token :=
  if b = ascii '[' then some .openArray
  else if b = ascii ']' then some .closeArray
  else if b = ascii '\x7b' then some .openObject
  else if b = ascii '\x7d' then some .closeObject
  else if b = ascii ',' then some .comma
  else if b = ascii ':' then some .colon
  else none

/-- What follows the first letter of a word, and the word's token. -/
def word? (b : UInt8) : Option (Bytes × Token) :=
  if b = ascii 'n' then some (Bytes.ofAscii "ull", .null)
  else if b = ascii 't' then some (Bytes.ofAscii "rue", .bool true)
  else if b = ascii 'f' then some (Bytes.ofAscii "alse", .bool false)
  else none

/-- The token at the front, where no blank stands, and the rest; a fault leaves nothing. -/
def readToken (b : UInt8) (rest : Bytes) : Token × Bytes :=
  match punctuation? b with
  | some token => (token, rest)
  | none =>
    match word? b with
    | some (word, token) =>
      match readWord word rest with
      | .ok rest => (token, rest)
      | .error fault => (.badScalar fault, [])
    | none =>
      if b = quote then
        match readBody rest with
        | some (body, rest) => (.string body, rest)
        | none => (.badString (stringFault rest), [])
      else
        match readNumeral (b :: rest) with
        | .ok (n, rest) => (.number n, rest)
        | .error fault => (.badScalar fault, [])

/-! What a reader leaves is no longer than what it was given. -/

theorem readWord_length {word s rest : Bytes} (h : readWord word s = .ok rest) :
    rest.length ≤ s.length := by
  induction word generalizing s with
  | nil =>
    simp only [readWord, Except.ok.injEq] at h
    simp [h]
  | cons w word ih =>
    cases s with
    | nil => simp [readWord] at h
    | cons b s =>
      simp only [readWord] at h
      split at h
      · exact Nat.le_succ_of_le (ih h)
      · simp at h

theorem readDigits_length {s digits rest : Bytes} (h : readDigits s = .ok (digits, rest)) :
    rest.length < s.length := by
  unfold readDigits at h
  split at h
  · simp at h
  · rename_i b s
    split at h
    · rename_i hb
      simp only [Except.ok.injEq, Prod.mk.injEq] at h
      rw [← h.2, List.dropWhile_cons, if_pos hb]
      have := (List.dropWhile_sublist Bytes.isDigit (l := s)).length_le
      simp only [List.length_cons]
      omega
    · simp at h

theorem readWhole_length {s digits rest : Bytes} (h : readWhole s = .ok (digits, rest)) :
    rest.length < s.length := by
  unfold readWhole at h
  split at h
  · simp at h
  · rename_i digits' rest' hd
    split at h
    · simp at h
    · simp only [Except.ok.injEq, Prod.mk.injEq] at h
      exact h.2 ▸ readDigits_length hd

theorem readFraction_length {s rest : Bytes} {fraction : Option Bytes}
    (h : readFraction s = .ok (fraction, rest)) : rest.length ≤ s.length := by
  unfold readFraction at h
  split at h
  · simp only [Except.ok.injEq, Prod.mk.injEq] at h
    simp [← h.2]
  · rename_i b s
    split at h
    · split at h
      · simp at h
      · rename_i digits rest' hd
        simp only [Except.ok.injEq, Prod.mk.injEq] at h
        have := readDigits_length hd
        simp only [List.length_cons, ← h.2]
        omega
    · simp only [Except.ok.injEq, Prod.mk.injEq] at h
      simp [← h.2]

theorem readExponent_length {s rest : Bytes} {exponent : Option (Bool × Bytes)}
    (h : readExponent s = .ok (exponent, rest)) : rest.length ≤ s.length := by
  unfold readExponent at h
  split at h
  · simp only [Except.ok.injEq, Prod.mk.injEq] at h
    simp [← h.2]
  · rename_i b s
    split at h
    · split at h
      rename_i minus ds hsign
      have hds : ds.length ≤ s.length := by
        split at hsign
        · simp_all
        · split at hsign
          · simp_all only [Prod.mk.injEq, List.length_cons]
            omega
          · split at hsign
            · simp_all only [Prod.mk.injEq, List.length_cons]
              omega
            · simp_all
      split at h
      · simp at h
      · rename_i digits rest' hd
        simp only [Except.ok.injEq, Prod.mk.injEq] at h
        have := readDigits_length hd
        simp only [List.length_cons, ← h.2]
        omega
    · simp only [Except.ok.injEq, Prod.mk.injEq] at h
      simp [← h.2]

theorem readMinus_length (s : Bytes) : (readMinus s).2.length ≤ s.length := by
  unfold readMinus
  repeat' split
  all_goals simp

theorem readNumeral_length {s rest : Bytes} {n : Numeral} (h : readNumeral s = .ok (n, rest)) :
    rest.length < s.length := by
  unfold readNumeral at h
  split at h
  · simp at h
  · rename_i whole rest₁ hw
    split at h
    · simp at h
    · rename_i fraction rest₂ hf
      split at h
      · simp at h
      · rename_i exponent rest₃ he
        simp only [Except.ok.injEq, Prod.mk.injEq] at h
        have hw := readWhole_length hw
        have hf := readFraction_length hf
        have he := readExponent_length he
        have hm := readMinus_length s
        rw [← h.2]
        omega

theorem readBody_length {s body rest : Bytes} (h : readBody s = some (body, rest)) :
    rest.length ≤ s.length := by
  fun_induction readBody s generalizing body rest with
  | case1 => simp at h
  | case2 => simp_all
  | case3 => simp at h
  | case4 => simp at h
  | case5 => simp at h
  | case6 =>
    rename_i ih
    simp only [Option.map_eq_some_iff, Prod.exists, Prod.mk.injEq] at h
    obtain ⟨body', rest', h, -, rfl⟩ := h
    have := ih h
    simp only [List.length_cons]
    omega
  | case7 => simp at h
  | case8 => simp at h
  | case9 =>
    rename_i ih
    simp only [Option.map_eq_some_iff, Prod.exists, Prod.mk.injEq] at h
    obtain ⟨body', rest', h, -, rfl⟩ := h
    have := ih h
    simp only [List.length_cons]
    omega
  | case10 =>
    rename_i ih
    simp only [Option.map_eq_some_iff, Prod.exists, Prod.mk.injEq] at h
    obtain ⟨body', rest', h, -, rfl⟩ := h
    have := ih h
    simp only [List.length_cons]
    omega

theorem readToken_length (b : UInt8) (s : Bytes) : (readToken b s).2.length ≤ s.length := by
  have word {spelled rest : Bytes} (h : readWord spelled s = .ok rest) := readWord_length h
  have body {said rest : Bytes} (h : readBody s = some (said, rest)) := readBody_length h
  have numeral {n : Numeral} {rest : Bytes} (h : readNumeral (b :: s) = .ok (n, rest)) :
      rest.length ≤ s.length := Nat.lt_succ_iff.1 (readNumeral_length h)
  unfold readToken
  repeat' split
  all_goals first
    | exact Nat.le_refl _
    | exact Nat.zero_le _
    | exact word (by assumption)
    | exact body (by assumption)
    | exact numeral (by assumption)

/-- The lexeme at the front and the rest, or nothing where only blanks are left. -/
def readLexeme (s : Bytes) : Option (Lexeme × Bytes) :=
  match s.dropWhile isGap with
  | [] => none
  | b :: rest =>
    let (token, after) := readToken b rest
    some (⟨s.takeWhile isGap, spelling (b :: rest) after, token⟩, after)

theorem readLexeme_length {s rest : Bytes} {l : Lexeme} (h : readLexeme s = some (l, rest)) :
    rest.length < s.length := by
  unfold readLexeme at h
  split at h
  · simp at h
  · rename_i b rest' hs
    simp only [Option.some.injEq, Prod.mk.injEq] at h
    have h₁ := readToken_length b rest'
    have h₂ := (List.dropWhile_sublist isGap (l := s)).length_le
    rw [hs, List.length_cons] at h₂
    rw [← h.2]
    omega

/-- The lexemes of a text in order. -/
def lex (s : Bytes) : List Lexeme :=
  match _h : readLexeme s with
  | none => []
  | some (l, rest) => l :: lex rest
termination_by s.length
decreasing_by exact readLexeme_length _h

end EventReplay.Json
