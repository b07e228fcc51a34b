import EventReplay.Proofs.QuotedText

/-!
# What the body of a string says

A string's body is made of bytes that stand for themselves and of escapes (`Says`), and what `unquote`
gives is what the bytes in front of the closing quote say (`says_of_unquote`). So a body is never shorter
than the text that it says (`length_le_of_textOf?`), and is a text itself (`isText_of_textOf?`).
-/

set_option autoImplicit false

namespace EventReplay.Json

/-! ## Escapes -/

/-- A way to write a character with a backslash. -/
structure IsEscape (code : Bytes) (c : Char) : Prop where
  isAscii : ∀ b ∈ code, b < 0x80
  length_le : (String.utf8EncodeChar c).length ≤ code.length
  readBody : ∀ rest, readBody (code ++ rest) =
    (readBody rest).map fun (body, after) => (code ++ body, after)

theorem length_utf8EncodeChar_le (c : Char) : (String.utf8EncodeChar c).length ≤ 4 := by
  rw [String.length_utf8EncodeChar]
  exact c.utf8Size_le_four

theorem lt_of_simpleEscape? {e d : UInt8} (h : simpleEscape? e = some d) : e < 0x80 ∧ d < 0x80 := by
  unfold simpleEscape? at h
  split at h
  next he =>
    obtain rfl := Option.some.inj h
    obtain rfl | rfl | rfl := he <;> decide
  repeat' split at h
  all_goals
    simp only [Option.some.injEq, reduceCtorEq] at h
  all_goals
    subst e d
    decide

theorem lt_of_hexDigit? {b : UInt8} {n : Nat} (h : hexDigit? b = some n) : b < 0x80 := by
  have hb : b.toNat < 0x80 := by
    unfold hexDigit? at h
    grind
  exact UInt8.lt_iff_toNat_lt.mpr hb

theorem lt_of_hexValue? {h₁ h₂ h₃ h₄ : UInt8} {n : Nat} (h : hexValue? h₁ h₂ h₃ h₄ = some n) :
    ∀ b ∈ [h₁, h₂, h₃, h₄], b < 0x80 := by
  simp only [hexValue?, Option.bind_eq_bind, Option.bind_eq_some_iff] at h
  obtain ⟨n₁, h₁', n₂, h₂', n₃, h₃', n₄, h₄', -⟩ := h
  simp only [List.forall_mem_cons, List.not_mem_nil, false_implies, implies_true, and_true]
  exact ⟨lt_of_hexDigit? h₁', lt_of_hexDigit? h₂', lt_of_hexDigit? h₃', lt_of_hexDigit? h₄'⟩

theorem isEscape_simple {e d : UInt8} (hu : e ≠ ascii 'u') (h : simpleEscape? e = some d) :
    IsEscape [backslash, e] (Char.ofNat d.toNat) where
  isAscii := by
    simpa using ⟨by decide, (lt_of_simpleEscape? h).1⟩
  length_le := by
    rw [Utf8.encodeChar_one (lt_of_simpleEscape? h).2]
    simp
  readBody := readBody_escape hu h

theorem isEscape_hex {h₁ h₂ h₃ h₄ : UInt8} {n : Nat} (h : hexValue? h₁ h₂ h₃ h₄ = some n) (c : Char) :
    IsEscape [backslash, ascii 'u', h₁, h₂, h₃, h₄] c where
  isAscii := by
    have := lt_of_hexValue? h
    rw [List.forall_mem_cons, List.forall_mem_cons]
    exact ⟨by decide, by decide, this⟩
  length_le := Nat.le_trans (length_utf8EncodeChar_le c) (by simp)
  readBody := readBody_hex h

/-- A character may take two escapes. -/
theorem IsEscape.append {x y : Bytes} {c : Char} (hx : IsEscape x c) (hy : IsEscape y c) :
    IsEscape (x ++ y) c where
  isAscii := List.forall_mem_append.mpr ⟨hx.isAscii, hy.isAscii⟩
  length_le := Nat.le_trans hx.length_le (by simp)
  readBody rest := by
    rw [List.append_assoc, hx.readBody, hy.readBody, Option.map_map]
    simp [Function.comp_def]

/-! ## Bodies -/

/-- A body says bytes. -/
inductive Says : Bytes → Bytes → Prop
  | nil : Says [] []
  | plain {b : UInt8} {body said : Bytes} (hb : IsPlain b) (h : Says body said) :
    Says (b :: body) (b :: said)
  | escape {code body said : Bytes} {c : Char} (hcode : IsEscape code c) (h : Says body said) :
    Says (code ++ body) (String.utf8EncodeChar c ++ said)

/-- More may be said in front of what is said up to the closing quote. -/
theorem exists_says_append (code : Bytes) {more said tail : Bytes}
    (hcode : ∀ body, Says body more → Says (code ++ body) said)
    (htail : ∃ body rest, tail = body ++ quote :: rest ∧ Says body more) :
    ∃ body rest, code ++ tail = body ++ quote :: rest ∧ Says body said := by
  obtain ⟨body, rest, rfl, htold⟩ := htail
  exact ⟨code ++ body, rest, (List.append_assoc ..).symm, hcode body htold⟩

theorem ok_of_map {f : Bytes → Bytes} {result : Except Fault Bytes} {said : Bytes}
    (h : result.map f = .ok said) : ∃ more, result = .ok more ∧ f more = said := by
  cases result with
  | error fault => simp [Except.map] at h
  | ok more => exact ⟨more, rfl, Except.ok.inj h⟩

/-- What is read are the bytes that stand in front of the closing quote. -/
theorem says_of_unquote {x said : Bytes} (h : unquote x = .ok said) :
    ∃ body rest, x = body ++ quote :: rest ∧ Says body said := by
  fun_induction unquote x generalizing said with
  | case2 rest =>
    obtain rfl : [] = said := Except.ok.inj h
    exact ⟨[], rest, rfl, .nil⟩
  -- a surrogate pair
  | case12 h₁ h₂ h₃ h₄ high hhigh _ _ x u hmarks l₁ l₂ l₃ l₄ rest low hlow _ _ _ ih =>
    obtain ⟨rfl, rfl⟩ : x = backslash ∧ u = ascii 'u' := by simpa using hmarks
    obtain ⟨more, hmore, rfl⟩ := ok_of_map h
    have hcode := fun c => (isEscape_hex hhigh c).append (isEscape_hex hlow c)
    exact exists_says_append [backslash, _, _, _, _, _, backslash, _, _, _, _, _]
      (fun _ htold => .escape (hcode _) htold) (ih hmore)
  -- four hexadecimal digits
  | case15 h₁ h₂ h₃ h₄ rest value hvalue _ _ _ _ ih =>
    obtain ⟨more, hmore, rfl⟩ := ok_of_map h
    exact exists_says_append [backslash, _, _, _, _, _]
      (fun _ htold => .escape (isEscape_hex hvalue _) htold) (ih hmore)
  -- a letter
  | case18 e rest hu d he _ _ ih =>
    obtain ⟨more, hmore, rfl⟩ := ok_of_map h
    have hbytes := Utf8.encodeChar_one (lt_of_simpleEscape? he).2
    refine exists_says_append [backslash, e] (fun body htold => ?_) (ih hmore)
    have := Says.escape (isEscape_simple hu he) htold
    rwa [hbytes] at this
  -- a byte that stands for itself
  | case19 b rest hquote hlow hbackslash ih =>
    obtain ⟨more, hmore, rfl⟩ := ok_of_map h
    exact exists_says_append [b] (fun _ htold => .plain ⟨hquote, hlow, hbackslash⟩ htold) (ih hmore)
  | _ => simp at h

theorem Says.readBody {body said : Bytes} (h : Says body said) (rest : Bytes) :
    Json.readBody (body ++ quote :: rest) = some (body, rest) := by
  induction h with
  | nil =>
    rw [List.nil_append, readBody.eq_def]
    simp only [if_true]
  | @plain b body said hb _ ih =>
    have hplain : ∀ c ∈ [b], IsPlain c := by simpa using hb
    have := readBody_plain hplain (body ++ quote :: rest)
    rw [ih] at this
    exact this
  | escape hcode _ ih =>
    rw [List.append_assoc, hcode.readBody, ih]
    rfl

/-- A body is not shorter than what it says. -/
theorem Says.length_le {body said : Bytes} (h : Says body said) : said.length ≤ body.length := by
  induction h with
  | nil => exact Nat.le_refl _
  | plain _ _ ih => exact Nat.succ_le_succ ih
  | escape hcode _ ih =>
    rw [List.length_append, List.length_append]
    exact Nat.add_le_add hcode.length_le ih

/-- A body is a text if it says one. -/
theorem Says.isText {body said : Bytes} (h : Says body said) (before : Bytes)
    (hsaid : Utf8.IsText (before ++ said)) : Utf8.IsText (before ++ body) := by
  induction h generalizing before with
  | nil => exact hsaid
  | @plain b body said _ _ ih =>
    rw [List.append_cons] at hsaid ⊢
    exact ih (before ++ [b]) hsaid
  | @escape code body said c hcode _ ih =>
    obtain ⟨hbefore, hsaid⟩ := hsaid.around
    have hbody : Utf8.IsText body := ih [] hsaid
    exact hbefore.append ((Utf8.isText_of_ascii hcode.isAscii).append hbody)

/-! ## Texts -/

/-- What a whole body says. -/
theorem says_of_textOf? {body : Bytes} {s : String} (hbody : readBody (body ++ [quote]) = some (body, []))
    (h : textOf? body = some s) : Says body (Utf8.encode s) := by
  unfold textOf? at h
  split at h
  · simp at h
  next said hsaid =>
    obtain ⟨front, rest, heq, htold⟩ := says_of_unquote hsaid
    have hread := htold.readBody rest
    rw [← heq, hbody] at hread
    obtain rfl : body = front := congrArg Prod.fst (Option.some.inj hread)
    rwa [← Utf8.decode?_eq_some.mp h]

theorem length_le_of_textOf? {body : Bytes} {s : String}
    (hbody : readBody (body ++ [quote]) = some (body, [])) (h : textOf? body = some s) :
    (Utf8.encode s).length ≤ body.length :=
  (says_of_textOf? hbody h).length_le

theorem isText_of_textOf? {body : Bytes} {s : String}
    (hbody : readBody (body ++ [quote]) = some (body, [])) (h : textOf? body = some s) :
    Utf8.IsText body :=
  (says_of_textOf? hbody h).isText [] ⟨s, rfl⟩

end EventReplay.Json
