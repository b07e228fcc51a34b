import EventReplay.Proofs.ValueReading

/-!
# How deep a text nests

The brackets of a text say how deep it nests (`nesting`), whatever it holds between them. Each bracket
that opens a container finds as many open in front of it as the reader has open containers. So a value is
read with just the room that its brackets need (`Reads.room_of_deepest`, `Reads.deepest_le`).
-/

set_option autoImplicit false

namespace EventReplay.Json

/-! ## Brackets -/

/-- The number of brackets that are open behind a token, if so many are open in front of it. -/
def Token.level (opened : Nat) : Token → Nat
  | .openArray | .openObject => opened + 1
  | .closeArray | .closeObject => opened - 1
  | _ => opened

/-- The most brackets that are open at one point, if so many are open in front. -/
def deepest (opened : Nat) : List Lexeme → Nat
  | [] => opened
  | l :: ls => max opened (deepest (l.token.level opened) ls)

/-- How deep a text nests. -/
def nesting (s : Bytes) : Nat := deepest 0 (lex s)

theorem le_deepest (opened : Nat) (ls : List Lexeme) : opened ≤ deepest opened ls := by
  cases ls with
  | nil => exact Nat.le_refl _
  | cons l ls => exact Nat.le_max_left _ _

theorem deepest_level_le (opened : Nat) (l : Lexeme) (ls : List Lexeme) :
    deepest (l.token.level opened) ls ≤ deepest opened (l :: ls) :=
  Nat.le_max_right _ _

/-! ## Moves -/

/-- A token that opens a container counts one up, one that closes it counts one down. -/
theorem level_of_move {need : Need} {t : Token} {m : Move} (h : move need t = .ok m) (opened : Nat) :
    t.level opened =
      match m with
      | .opening _ => opened + 1
      | .closing => opened - 1
      | .scalar | .key | .separator _ => opened := by
  cases need <;> cases t <;> simp [move, startValue, startKey] at h <;> subst h <;> rfl

/-- A value is put into the innermost container, which stays open. -/
theorem length_of_place {v : Value} {frames frames' : List Frame} {need : Need}
    (h : place v frames = .within frames' need) : frames'.length = frames.length := by
  unfold place at h
  split at h
  · cases h
    simp only [List.length_cons]
  · cases h
    simp only [List.length_cons]
  · simp at h

/-- As many brackets are open behind a move as containers, but for those outside the value. -/
theorem Builds.level {room : Nat} {frames frames' : List Frame} {need need' : Need} {t : Token}
    {m : Move} (h : Builds room frames t m (.within frames' need')) (hm : move need t = .ok m)
    (outer : Nat) : t.level (outer + frames.length) = outer + frames'.length := by
  rw [level_of_move hm]
  generalize hprogress : Progress.within frames' need' = progress at h
  cases h with
  | scalar _ => rw [length_of_place hprogress.symm]
  | openArray _ | openObject _ =>
    cases hprogress
    simp only [List.length_cons]
    omega
  | closeArray | closeObject =>
    have hlength := length_of_place hprogress.symm
    simp only [List.length_cons]
    omega
  | key _ =>
    cases hprogress
    simp only [List.length_cons]
  | separator =>
    cases hprogress
    rfl

/-- A move that leaves no more containers open than there is room for can be made there. -/
theorem Builds.room {room n : Nat} {frames : List Frame} {t : Token} {m : Move} {progress : Progress}
    (h : Builds room frames t m progress)
    (hroom : ∀ frames' need, progress = .within frames' need → frames'.length ≤ n) :
    Builds n frames t m progress := by
  cases h with
  | scalar hv => exact .scalar hv
  | openArray _ => exact .openArray (hroom _ _ rfl)
  | openObject _ => exact .openObject (hroom _ _ rfl)
  | closeArray => exact .closeArray
  | closeObject => exact .closeObject
  | key hkey => exact .key hkey
  | separator => exact .separator

/-- A value that stands within `outer` brackets is read with room for the brackets that it brings, with
whatever stands behind it. -/
theorem Reads.room_of_deepest {room n : Nat} {v : Value} {frames : List Frame} {need : Need}
    {ls : List Lexeme} (h : Reads room v frames need ls) (outer : Nat) (rest : List Lexeme)
    (hdeep : deepest (outer + frames.length) (ls ++ rest) ≤ outer + n) : Reads n v frames need ls := by
  induction h with
  | last hm hlast => exact .last hm (hlast.room (by simp))
  | @next frames frames' need need' l ls m hm hnext _ ih =>
    have hbehind := Nat.le_trans (deepest_level_le _ l (ls ++ rest)) hdeep
    rw [hnext.level hm outer] at hbehind
    have hopen := Nat.le_trans (le_deepest _ _) hbehind
    refine .next hm (hnext.room ?_) (ih hbehind)
    intro frames'' need'' heq
    cases heq
    omega

/-- No more containers are open behind a move than there is room for. -/
theorem Builds.length_le {room : Nat} {frames frames' : List Frame} {need : Need} {t : Token} {m : Move}
    (h : Builds room frames t m (.within frames' need)) (hframes : frames.length ≤ room) :
    frames'.length ≤ room := by
  generalize hprogress : Progress.within frames' need = progress at h
  cases h with
  | scalar _ => rwa [length_of_place hprogress.symm]
  | openArray hroom | openObject hroom =>
    cases hprogress
    exact hroom
  | closeArray | closeObject =>
    rw [length_of_place hprogress.symm]
    exact Nat.le_of_succ_le hframes
  | key _ | separator =>
    cases hprogress
    exact hframes

/-- A move that completes a value opens no container. -/
theorem Builds.level_complete {room : Nat} {frames : List Frame} {need : Need} {t : Token} {m : Move}
    {v : Value} (h : Builds room frames t m (.complete v)) (hm : move need t = .ok m) (opened : Nat) :
    t.level opened ≤ opened := by
  rw [level_of_move hm]
  generalize hprogress : Progress.complete v = progress at h
  cases h with
  | openArray _ | openObject _ => simp at hprogress
  | closeArray | closeObject => exact Nat.sub_le _ _
  | scalar _ | key _ | separator => exact Nat.le_refl _

/-- A value is read from no deeper nesting than there is room for. -/
theorem Reads.deepest_le {room : Nat} {v : Value} {frames : List Frame} {need : Need} {ls : List Lexeme}
    (h : Reads room v frames need ls) (hframes : frames.length ≤ room) :
    deepest frames.length ls ≤ room := by
  induction h with
  | @last frames need l m hm hlast =>
    have hlevel := hlast.level_complete hm frames.length
    show max frames.length (l.token.level frames.length) ≤ room
    omega
  | @next frames frames' need need' l ls m hm hnext _ ih =>
    have hlevel := hnext.level hm 0
    rw [Nat.zero_add, Nat.zero_add] at hlevel
    have hrest := ih (hnext.length_le hframes)
    rw [deepest, hlevel]
    omega

end EventReplay.Json
