import Mathlib.Data.List.Perm.Basic

/-!
# One of many

The threads of a session, its calls and its handles stand in lists, and a step changes one entry and
leaves the others alone. Here is what a list with one entry changed has in common with the list before.
-/

set_option autoImplicit false

namespace EventReplay

/-- One entry of a list and the others, in some order, whatever is put in its place. -/
theorem perm_set {α : Type} {l : List α} {n : Nat} {a : α} (h : l[n]? = some a) :
    ∃ others, l.Perm (a :: others) ∧ ∀ b, (l.set n b).Perm (b :: others) := by
  obtain ⟨hlt, rfl⟩ := List.getElem?_eq_some_iff.mp h
  exact ⟨l.eraseIdx n, (List.getElem_cons_eraseIdx_perm hlt).symm, List.set_perm_cons_eraseIdx hlt⟩

/-- What comes of one entry of a list and of the others, in some order, whatever is put in its place. -/
theorem perm_flatMap_set {α β : Type} (f : α → List β) {l : List α} {n : Nat} {a : α}
    (h : l[n]? = some a) :
    ∃ others, (l.flatMap f).Perm (f a ++ others) ∧
      ∀ b, ((l.set n b).flatMap f).Perm (f b ++ others) := by
  obtain ⟨others, hperm, hset⟩ := perm_set h
  exact ⟨others.flatMap f, hperm.flatMap_right _, fun b => (hset b).flatMap_right _⟩

theorem getElem?_set_same {α : Type} {l : List α} {n : Nat} {a : α} (h : l[n]? = some a) (b : α) :
    (l.set n b)[n]? = some b := by
  obtain ⟨hlt, -⟩ := List.getElem?_eq_some_iff.mp h
  rw [List.getElem?_set_self hlt]

/-- One of some threads does the first thing that it is about to do, and the others wait. -/
theorem flatten_set {α : Type} {threads : List (List α)} {n : Nat} {first : α} {rest : List α}
    (h : threads[n]? = some (first :: rest)) :
    ∃ before after, threads.flatten = before ++ [first] ++ after ∧
      ∀ more, (threads.set n (more ++ rest)).flatten = before ++ more ++ after := by
  obtain ⟨hlt, hget⟩ := List.getElem?_eq_some_iff.mp h
  have hsplit : threads = threads.take n ++ (first :: rest) :: threads.drop (n + 1) := by
    rw [← hget, ← List.drop_eq_getElem_cons hlt, List.take_append_drop]
  refine ⟨(threads.take n).flatten, rest ++ (threads.drop (n + 1)).flatten, ?_, fun more => ?_⟩
  · calc threads.flatten
        = (threads.take n ++ (first :: rest) :: threads.drop (n + 1)).flatten := congrArg _ hsplit
      _ = _ := by simp
  · rw [List.set_eq_take_append_cons_drop, if_pos hlt]
    simp

end EventReplay
