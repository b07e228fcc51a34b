import Mathlib.Data.String.Basic
import EventReplay.Proofs.Utf8Text
import EventReplay.Storage.FileTree

/-!
# Written paths

How a written path is taken apart (`Path.parts_eq`), what changes when a name is written behind it
(`Path.parts_join`), and that the path of names tells them apart (`Path.text_injective`).
-/

set_option autoImplicit false

namespace EventReplay.Path

/-! ## Parts -/

open String in
theorem splitOnAux_slash (l m r : List Char) (acc : List String) :
    String.splitOnAux (ofList (l ++ m ++ r)) "/" ⟨utf8Len l⟩ ⟨utf8Len l + utf8Len m⟩ 0 acc =
      acc.reverse ++ (r.splitOnPPrepend (· == '/') m.reverse).map ofList := by
  induction r generalizing l m acc with
  | nil =>
      have hend : Pos.Raw.atEnd (ofList (l ++ m ++ [])) ⟨utf8Len l + utf8Len m⟩ := by
        rw [← utf8Len_append]
        exact (atEnd_of_valid (l ++ m) []).mpr rfl
      rw [splitOnAux, if_pos hend, extract_of_valid l m []]
      simp
  | cons c r ih =>
      have hend : ¬ Pos.Raw.atEnd (ofList (l ++ m ++ c :: r)) ⟨utf8Len l + utf8Len m⟩ := by
        rw [← utf8Len_append, atEnd_of_valid (l ++ m) (c :: r)]
        simp
      have hget : Pos.Raw.get (ofList (l ++ m ++ c :: r)) ⟨utf8Len l + utf8Len m⟩ = c := by
        rw [← utf8Len_append]
        exact get_of_valid (l ++ m) (c :: r)
      have hnext : Pos.Raw.next (ofList (l ++ m ++ c :: r)) ⟨utf8Len l + utf8Len m⟩ =
          ⟨utf8Len l + utf8Len m + c.utf8Size⟩ := by
        rw [← utf8Len_append]
        exact next_of_valid (l ++ m) c r
      have hslash : Pos.Raw.get "/" 0 = '/' := by decide
      rw [splitOnAux, if_neg hend, hget, hslash, hnext, List.splitOnPPrepend_cons_eq_if]
      by_cases hc : c = '/'
      · subst hc
        have hback : Pos.Raw.unoffsetBy ⟨utf8Len l + utf8Len m + Char.utf8Size '/'⟩
            (Pos.Raw.next "/" 0) = ⟨utf8Len l + utf8Len m⟩ := by
          simp only [Pos.Raw.unoffsetBy, Pos.Raw.mk.injEq]
          exact Nat.add_sub_cancel _ 1
        have hstop : Pos.Raw.atEnd "/" (Pos.Raw.next "/" 0) := by decide
        have h := ih (l ++ m ++ ['/']) [] (ofList m :: acc)
        simp only [beq_self_eq_true, if_true, hstop, hback, extract_of_valid l m ('/' :: r)]
        simpa [-ofList_append, Nat.add_assoc] using h
      · have hstay : Pos.Raw.unoffsetBy ⟨utf8Len l + utf8Len m⟩ 0 = ⟨utf8Len l + utf8Len m⟩ := rfl
        have h := ih l (m ++ [c]) acc
        simp only [beq_iff_eq, hc, if_false, hstay, hnext]
        simpa [-ofList_append, Nat.add_assoc] using h

/-- The parts of a written path are found by splitting the list of its characters. -/
theorem parts_eq (path : String) :
    parts path = ((path.toList.splitOnP (· == '/')).map String.ofList).filter
      fun part => part ≠ "" && part ≠ "." := by
  have h := splitOnAux_slash [] [] path.toList []
  rw [parts, String.splitOn, if_neg (by decide)]
  simpa using congrArg _ h

/-! ## Names -/

/-- A name that something in a directory can have. -/
structure IsName (name : String) : Prop where
  ne_empty : name ≠ ""
  ne_dot : name ≠ "."
  ne_dots : name ≠ ".."
  no_slash : '/' ∉ name.toList

theorem endsWith_iff (pattern s : String) :
    s.endsWith pattern = true ↔ pattern.toList <:+ s.toList := by
  rw [← String.endsWith_toSlice, String.Slice.endsWith_string_iff, String.copy_toSlice]

theorem splitOnP_name {name : String} (h : IsName name) :
    name.toList.splitOnP (· == '/') = [name.toList] := by
  refine List.splitOnP_eq_singleton fun c hc => ?_
  rw [beq_eq_false_iff_ne]
  rintro rfl
  exact h.no_slash hc

section Join

variable {directory name : String}

/-- A name is written behind a slash, which the directory may bring along. -/
theorem join_toList (hdirectory : directory ≠ "") (hname : IsName name) :
    ∃ above, (join directory name).toList = above ++ '/' :: name.toList ∧
      (directory.toList = above ∨ directory.toList = above ++ ['/']) := by
  have hstart : name.startsWith "/" = false := by
    rw [String.startsWith_string_eq_false_iff]
    rintro ⟨rest, hrest⟩
    exact hname.no_slash (hrest ▸ by simp)
  have hempty : directory.isEmpty = false := by simpa using hdirectory
  rw [join, hempty, hstart, if_neg (by simp)]
  by_cases hslash : directory.endsWith "/" = true
  · obtain ⟨above, habove⟩ := (endsWith_iff "/" directory).mp hslash
    have hdirectory' : directory.toList = above ++ ['/'] := habove.symm
    exact ⟨above, by simp [hslash, hdirectory'], Or.inr hdirectory'⟩
  · exact ⟨directory.toList, by simp [hslash], Or.inl rfl⟩

theorem join_ne_empty (hdirectory : directory ≠ "") (hname : IsName name) :
    join directory name ≠ "" := by
  obtain ⟨above, hjoin, -⟩ := join_toList hdirectory hname
  intro h
  simp [h] at hjoin

/-- A name written behind a directory is one more part. -/
theorem parts_join (hdirectory : directory ≠ "") (hname : IsName name) :
    parts (join directory name) = parts directory ++ [name] := by
  obtain ⟨above, hjoin, hdir⟩ := join_toList hdirectory hname
  have hlast : [name].filter (fun part => part ≠ "" && part ≠ ".") = [name] := by
    simp [hname.ne_empty, hname.ne_dot]
  have habove : parts directory = ((above.splitOnP (· == '/')).map String.ofList).filter
      fun part => part ≠ "" && part ≠ "." := by
    rw [parts_eq]
    obtain hdir | hdir := hdir
    · rw [hdir]
    · rw [hdir, List.splitOnP_append_cons above [] rfl, List.map_append, List.filter_append]
      simp [List.splitOnP_nil]
  rw [parts_eq, hjoin, List.splitOnP_append_cons above name.toList rfl, splitOnP_name hname,
    List.map_append, List.filter_append, ← habove]
  simpa using hlast

/-- Behind a directory a name starts where the directory starts. -/
theorem startsWith_join (hdirectory : directory ≠ "") (hname : IsName name) :
    (join directory name).startsWith "/" = directory.startsWith "/" := by
  obtain ⟨above, hjoin, hdir⟩ := join_toList hdirectory hname
  rw [Bool.eq_iff_iff, String.startsWith_string_iff, String.startsWith_string_iff, hjoin]
  have hne : directory.toList ≠ [] := by simpa using hdirectory
  cases above with
  | nil =>
    obtain hdir | hdir := hdir
    · exact absurd hdir hne
    · simp [hdir]
  | cons c above =>
    obtain hdir | hdir := hdir <;> simp [hdir, List.cons_prefix_cons]

/-- Behind a directory a name may be that of a file. -/
theorem namesDirectory_join (hdirectory : directory ≠ "") (hname : IsName name) :
    namesDirectory (join directory name) = false := by
  obtain ⟨above, hjoin, -⟩ := join_toList hdirectory hname
  -- The name from its end, for that is where the two endings of a directory are looked for.
  obtain ⟨last, front, hlast⟩ : ∃ last front, name.toList.reverse = last :: front :=
    List.exists_cons_of_ne_nil (by simpa using hname.ne_empty)
  have hno : '/' ∉ last :: front := by
    rw [← hlast, List.mem_reverse]
    exact hname.no_slash
  have hreverse : (join directory name).toList.reverse = last :: (front ++ '/' :: above.reverse) := by
    rw [hjoin, List.reverse_append, List.reverse_cons, hlast]
    simp
  have hslash : (join directory name).endsWith "/" = false := by
    rw [← Bool.not_eq_true, endsWith_iff, ← List.reverse_prefix, hreverse]
    rintro ⟨rest, hrest⟩
    have hlast : '/' = last := (List.cons.inj hrest).1
    exact hno (hlast ▸ List.mem_cons_self)
  have hdot : (join directory name).endsWith "/." = false := by
    rw [← Bool.not_eq_true, endsWith_iff, ← List.reverse_prefix, hreverse]
    rintro ⟨rest, hrest⟩
    have hrest' : '.' :: '/' :: rest = last :: (front ++ '/' :: above.reverse) := hrest
    obtain ⟨rfl, hfront⟩ := List.cons.inj hrest'
    cases front with
    | nil =>
      have hname' : name.toList = ['.'] := List.reverse_eq_iff.mp hlast
      exact hname.ne_dot (String.toList_injective hname')
    | cons c front =>
      obtain ⟨rfl, -⟩ := List.cons.inj hfront
      exact hno (by simp)
  rw [namesDirectory, hslash, hdot]
  rfl

end Join

/-! ## Paths as they are shown -/

/-- The names of a path can be told from its text. -/
theorem text_injective {names names' : Path} (h : ∀ name ∈ names, IsName name)
    (h' : ∀ name ∈ names', IsName name) (htext : text names = text names') : names = names' := by
  have hsplit : ∀ {names : Path}, (∀ name ∈ names, IsName name) → names ≠ [] →
      (text names).toList.splitOn '/' = names.map String.toList := by
    intro names hnames hne
    rw [text, String.toList_intercalate]
    refine List.splitOn_intercalate '/' (fun cs hcs => ?_) (by simpa using hne)
    obtain ⟨name, hname, rfl⟩ := List.mem_map.mp hcs
    exact (hnames name hname).no_slash
  have hnil : ∀ {names : Path}, (∀ name ∈ names, IsName name) → text names = "" → names = [] := by
    intro names hnames hempty
    by_contra hne
    have hsingle := hsplit hnames hne
    rw [hempty] at hsingle
    obtain ⟨name, rfl⟩ : ∃ name, names = [name] := by
      apply List.length_eq_one_iff.mp
      simpa using congrArg List.length hsingle.symm
    exact (hnames name (by simp)).ne_empty (by simpa using hsingle)
  by_cases hne : names = []
  · subst hne
    exact (hnil h' htext.symm).symm
  · have hne' : names' ≠ [] := by
      rintro rfl
      exact hne (hnil h htext)
    have hsame := hsplit h hne
    rw [htext, hsplit h' hne'] at hsame
    exact (List.map_injective_iff.mpr (fun _ _ => String.toList_injective) hsame).symm

end EventReplay.Path
