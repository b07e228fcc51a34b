import EventReplay.Proofs.TextNesting

/-!
# Where a value begins and ends

The lexemes of a value close as many brackets as they open, and before its last one a bracket is open
(`Skips.levels`, `Skips.split`). So no lexemes stand in front of a value in another value that ends where it
ends (`Skips.eq_nil_of_append`), and a value that starts with a bracket ends with one (`Skips.closes`).
-/

set_option autoImplicit false

namespace EventReplay.Json

variable {opened opened' : List Bracket} {need need' : Need} {xs ys ls : List Lexeme}

/-- The number of brackets that are open behind some lexemes, if so many are open in front of them. -/
def levels (n : Nat) (ls : List Lexeme) : Nat := ls.foldl (fun n l => l.token.level n) n

theorem levels_eq_of_tokens (h : xs.map Lexeme.token = ys.map Lexeme.token) (n : Nat) :
    levels n xs = levels n ys := by
  have hfold : ∀ ls : List Lexeme,
      levels n ls = (ls.map Lexeme.token).foldl (fun n t => Token.level n t) n := fun ls => by
    rw [levels, List.foldl_map]
  rw [hfold, hfold, h]

theorem deepest_mono {n n' : Nat} (h : n ≤ n') (ls : List Lexeme) : deepest n ls ≤ deepest n' ls := by
  induction ls generalizing n n' with
  | nil => exact h
  | cons l ls ih =>
      have hlevel : l.token.level n ≤ l.token.level n' := by
        cases l.token <;> simp only [Token.level] <;> omega
      have := ih hlevel
      simp only [deepest]
      omega

/-- Brackets that are open around lexemes make them that much deeper at most. -/
theorem deepest_add_le (k n : Nat) (ls : List Lexeme) : deepest (k + n) ls ≤ k + deepest n ls := by
  induction ls generalizing n with
  | nil => exact Nat.le_refl _
  | cons l ls ih =>
      have hlevel : l.token.level (k + n) ≤ k + l.token.level n := by
        cases l.token <;> simp only [Token.level] <;> omega
      have hrest := Nat.le_trans (deepest_mono hlevel ls) (ih (l.token.level n))
      simp only [deepest]
      omega

theorem deepest_append (n : Nat) (xs ys : List Lexeme) :
    deepest n (xs ++ ys) = max (deepest n xs) (deepest (levels n xs) ys) := by
  induction xs generalizing n with
  | nil =>
      have := le_deepest n ys
      simp only [List.nil_append, deepest, levels, List.foldl_nil]
      omega
  | cons l xs ih =>
      rw [List.cons_append, deepest, deepest, ih, levels, levels, List.foldl_cons]
      omega

/-! ## One token -/

/-- A value starts with a scalar or opens a container. -/
theorem starts_of_move {t : Token} {m : Move} (h : move .value t = .ok m) :
    m = .scalar ∨ ∃ b, m = .opening b := by
  cases t <;> simp [move, startValue] at h <;> simp [← h]

theorem closes_of_move {t : Token} (h : move need t = .ok .closing) :
    t = .closeArray ∨ t = .closeObject := by
  cases need <;> cases t <;> simp [move, startValue, startKey] at h <;> simp

variable {t : Token} {m : Move} (hroot : opened = [] → need = .value) (hm : move need t = .ok m)

include hroot hm

/-- A token inside a value leaves a bracket open. -/
theorem level_of_advance (h : advance opened m = some (opened', need')) :
    opened' ≠ [] ∧ ∀ k, t.level (k + opened.length) = k + opened'.length := by
  have hlevel := fun k => level_of_move hm (k + opened.length)
  have hstart : opened = [] → m = .scalar ∨ ∃ b, m = .opening b := fun hnil =>
    starts_of_move (hroot hnil ▸ hm)
  cases m with
  | scalar =>
      cases opened with
      | nil => simp [advance] at h
      | cons b bs =>
          obtain ⟨rfl, -⟩ : b :: bs = opened' ∧ b.more = need' := by simpa [advance] using h
          exact ⟨by simp, hlevel⟩
  | opening b =>
      obtain ⟨rfl, -⟩ : b :: opened = opened' ∧ b.first = need' := by simpa [advance] using h
      exact ⟨by simp, hlevel⟩
  | closing =>
      rcases opened with _ | ⟨b, _ | ⟨b', bs⟩⟩
      · simp [advance] at h
      · simp [advance] at h
      · obtain ⟨rfl, -⟩ : b' :: bs = opened' ∧ b'.more = need' := by simpa [advance] using h
        exact ⟨by simp, hlevel⟩
  | key =>
      obtain ⟨rfl, -⟩ : opened = opened' ∧ Need.colon = need' := by simpa [advance] using h
      exact ⟨fun hnil => by simpa using hstart hnil, hlevel⟩
  | separator next =>
      obtain ⟨rfl, -⟩ : opened = opened' ∧ next = need' := by simpa [advance] using h
      exact ⟨fun hnil => by simpa using hstart hnil, hlevel⟩

/-- The last token of a value closes the last bracket, if one is open. -/
theorem level_of_last (h : advance opened m = none) :
    (∀ k, t.level (k + opened.length) = k) ∧ (opened ≠ [] → m = .closing) := by
  have hlevel := fun k => level_of_move hm (k + opened.length)
  have hstart : opened = [] → m = .scalar ∨ ∃ b, m = .opening b := fun hnil =>
    starts_of_move (hroot hnil ▸ hm)
  cases m with
  | scalar =>
      cases opened with
      | nil => exact ⟨hlevel, fun hne => absurd rfl hne⟩
      | cons b bs => simp [advance] at h
  | opening b => simp [advance] at h
  | closing =>
      rcases opened with _ | ⟨b, _ | ⟨b', bs⟩⟩
      · simpa using hstart rfl
      · exact ⟨hlevel, fun _ => rfl⟩
      · simp [advance] at h
  | key => simp [advance] at h
  | separator next => simp [advance] at h

omit hm

/-! ## The lexemes of a value -/

/-- The rest of a value closes the brackets that are open in front of it. -/
theorem Skips.levels (h : Skips opened need ls) (k : Nat) : Json.levels (k + opened.length) ls = k := by
  induction h with
  | last hm hlast => exact (level_of_last hroot hm hlast).1 k
  | next hm hnext _ ih =>
      obtain ⟨hne, hlevel⟩ := level_of_advance hroot hm hnext
      rw [Json.levels, List.foldl_cons, hlevel k]
      exact ih fun hnil => absurd hnil hne

/-- Where a value is cut between two of its lexemes, a bracket is open. -/
theorem Skips.split (h : Skips opened need (xs ++ ys)) (hys : ys ≠ []) :
    ∃ opened' need', Skips opened' need' ys ∧ (opened' = [] → need' = .value) ∧
      (xs ≠ [] → opened' ≠ []) ∧ ∀ k, Json.levels (k + opened.length) xs = k + opened'.length := by
  induction xs generalizing opened need with
  | nil => exact ⟨opened, need, h, hroot, by simp, fun k => rfl⟩
  | cons l xs ih =>
      have hcut : ∃ m opened' need', move need l.token = .ok m ∧ advance opened m = some (opened', need') ∧
          Skips opened' need' (xs ++ ys) := by
        rw [List.cons_append] at h
        generalize htail : xs ++ ys = rest at h ⊢
        have hrest : rest ≠ [] := by
          rw [← htail]
          simp [hys]
        cases h with
        | last => exact absurd rfl hrest
        | next hm hnext hskips => exact ⟨_, _, _, hm, hnext, hskips⟩
      obtain ⟨m, opened', need', hm, hnext, hskips⟩ := hcut
      obtain ⟨hne, hlevel⟩ := level_of_advance hroot hm hnext
      obtain ⟨opened'', need'', hskips', hroot', hmore, hlevels⟩ :=
        ih (fun hnil => absurd hnil hne) hskips
      refine ⟨opened'', need'', hskips', hroot', fun _ => ?_, fun k => ?_⟩
      · cases xs with
        | nil =>
            intro hnil
            have hlast := hlevels 0
            rw [hnil] at hlast
            exact hne (List.length_eq_zero_iff.mp (by simpa [Json.levels] using hlast))
        | cons l xs => exact hmore (by simp)
      · rw [Json.levels, List.foldl_cons, hlevel k]
        exact hlevels k

/-- A value with a bracket open in front of it ends with a closing bracket. -/
theorem Skips.closes (h : Skips opened need ls) (hne : opened ≠ []) :
    ∃ front l, ls = front ++ [l] ∧ (l.token = .closeArray ∨ l.token = .closeObject) := by
  induction h with
  | last hm hlast =>
      obtain rfl := (level_of_last hroot hm hlast).2 hne
      exact ⟨[], _, rfl, closes_of_move hm⟩
  | next hm hnext _ ih =>
      obtain ⟨hne, -⟩ := level_of_advance hroot hm hnext
      obtain ⟨front, l, rfl, htoken⟩ := ih (fun hnil => absurd hnil hne) hne
      exact ⟨_ :: front, l, rfl, htoken⟩

omit hroot

/-- A value starts where it starts, and it ends where it ends: nothing stands in front of the first lexemes
of a value in the lexemes of another, and they are the whole of it. -/
theorem Skips.eq_nil_of_append {ts us : List Lexeme} (hwhole : Skips [] .value (ts ++ us)) (hts : ts ≠ [])
    (h : Skips [] .value (xs ++ ys)) (hsame : ys.map Lexeme.token = ts.map Lexeme.token) :
    xs = [] ∧ us = [] := by
  have hys : ys ≠ [] := by
    rintro rfl
    exact hts (List.map_eq_nil_iff.mp hsame.symm)
  obtain ⟨opened, need, hskips, hroot, hopen, -⟩ := h.split (fun _ => rfl) hys
  -- what is behind the cut closes all brackets that are open there
  have hclosed : Json.levels (0 + opened.length) ts = 0 := by
    rw [← levels_eq_of_tokens hsame]
    exact hskips.levels hroot 0
  have hend : us = [] := by
    by_contra hus
    obtain ⟨opened', need', -, -, hopen', hlevels⟩ := hwhole.split (fun _ => rfl) hus
    have hlevel := hlevels (0 + opened.length)
    rw [List.length_nil, Nat.add_zero, hclosed] at hlevel
    exact hopen' hts (List.length_eq_zero_iff.mp (by omega))
  refine ⟨?_, hend⟩
  by_contra hxs
  rw [hend, List.append_nil] at hwhole
  have hlevel := hwhole.levels (fun _ => rfl) (0 + opened.length)
  rw [List.length_nil, Nat.add_zero, hclosed] at hlevel
  exact hopen hxs (List.length_eq_zero_iff.mp (by omega))

end EventReplay.Json
