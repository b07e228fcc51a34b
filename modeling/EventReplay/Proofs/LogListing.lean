import Mathlib.Data.List.Nodup
import EventReplay.Log.Segment
import EventReplay.Proofs.WrittenPaths

/-!
# The segments of a log

In a tree of files (`FileTree.WellFormed`) the segments of a log are the files below its root whose path
from there starts with some text (`mem_segmentsBelow`), in strictly increasing order of the bytes of that
path (`segmentsBelow_increasing`). Written below the root they can be read (`read_segmentPath`), and the
order in which the tree is enumerated makes no difference (`segmentsBelow_perm`, `resolve_perm`).
-/

set_option autoImplicit false

namespace EventReplay

/-! ## The order of byte lists -/

namespace Bytes

theorem le_cons {x y : UInt8} {a b : Bytes} :
    le (x :: a) (y :: b) = true ↔ x.toNat < y.toNat ∨ (x.toNat = y.toNat ∧ le a b = true) := by
  rw [le, UInt8.toNat_inj]
  by_cases h : x = y
  · simp [h]
  · simp [h, UInt8.lt_iff_toNat_lt]

theorem le_total (a b : Bytes) : (le a b || le b a) = true := by
  rw [Bool.or_eq_true]
  induction a generalizing b with
  | nil => exact Or.inl rfl
  | cons x a ih =>
    cases b with
    | nil => exact Or.inr rfl
    | cons y b =>
      rw [le_cons, le_cons]
      rcases Nat.lt_trichotomy x.toNat y.toNat with h | h | h
      · exact Or.inl (Or.inl h)
      · exact (ih b).imp (fun hab => Or.inr ⟨h, hab⟩) fun hba => Or.inr ⟨h.symm, hba⟩
      · exact Or.inr (Or.inl h)

theorem le_trans (a b c : Bytes) (hab : le a b = true) (hbc : le b c = true) : le a c = true := by
  induction a generalizing b c with
  | nil => rfl
  | cons x a ih =>
    cases b with
    | nil => simp [le] at hab
    | cons y b =>
      cases c with
      | nil => simp [le] at hbc
      | cons z c =>
        rw [le_cons] at hab hbc ⊢
        rcases hab with hxy | ⟨hxy, hab⟩ <;> rcases hbc with hyz | ⟨hyz, hbc⟩
        · exact Or.inl (hxy.trans hyz)
        · exact Or.inl (hyz ▸ hxy)
        · exact Or.inl (hxy ▸ hyz)
        · exact Or.inr ⟨hxy.trans hyz, ih b c hab hbc⟩

theorem le_antisymm {a b : Bytes} (hab : le a b = true) (hba : le b a = true) : a = b := by
  induction a generalizing b with
  | nil =>
    cases b with
    | nil => rfl
    | cons y b => simp [le] at hba
  | cons x a ih =>
    cases b with
    | nil => simp [le] at hab
    | cons y b =>
      rw [le_cons] at hab hba
      rcases hab with hxy | ⟨hxy, hab⟩ <;> rcases hba with hyx | ⟨hyx, hba⟩
      · omega
      · omega
      · omega
      · rw [UInt8.toNat_inj.mp hxy, ih hab hba]

/-- The first list comes before the second and is another one. -/
def Precedes (a b : Bytes) : Prop := le a b = true ∧ a ≠ b

end Bytes

/-! ## Trees of files -/

namespace FileTree

/-- No path is that of two files, what leads down to a file is a directory, and every name on the way can
be written. -/
structure WellFormed (tree : FileTree) : Prop where
  distinct : (tree.files.map Prod.fst).Nodup
  above : ∀ f ∈ tree.files, ∀ place, place <+: f.1 → place ≠ f.1 →
    tree.kind? place = some .directory
  names : ∀ f ∈ tree.files, ∀ name ∈ f.1, Path.IsName name

variable {tree : FileTree}

theorem file?_eq_some (hdistinct : (tree.files.map Prod.fst).Nodup) {path : Path} {content : Bytes} :
    tree.file? path = some content ↔ (path, content) ∈ tree.files := by
  rw [file?, Option.map_eq_some_iff]
  constructor
  · rintro ⟨f, hf, rfl⟩
    have hpath : f.1 = path := by simpa using List.find?_some hf
    exact hpath ▸ List.mem_of_find?_eq_some hf
  · intro h
    obtain ⟨f, hf⟩ : ∃ f, tree.files.find? (fun f => f.1 = path) = some f := by
      rw [← Option.isSome_iff_exists, List.find?_isSome]
      exact ⟨_, h, by simp⟩
    have hpath : f.1 = path := by simpa using List.find?_some hf
    have hsame := List.inj_on_of_nodup_map hdistinct (List.mem_of_find?_eq_some hf) h hpath
    exact ⟨f, hf, congrArg Prod.snd hsame⟩

theorem WellFormed.kind?_file (h : tree.WellFormed) {path : Path} {content : Bytes}
    (hfile : (path, content) ∈ tree.files) : tree.kind? path = some (.file content) := by
  rw [kind?, (file?_eq_some h.distinct).mpr hfile]

/-! ### Walks -/

theorem walk_append (here : Path) (parts more : List String) :
    tree.walk here (parts ++ more) = (tree.walk here parts).bind fun place => tree.walk place more := by
  induction parts generalizing here with
  | nil => rfl
  | cons part parts ih =>
    rw [List.cons_append, walk, walk]
    split
    · exact ih _
    · rfl
    · rfl

/-- The names that lead down to a file lead there. -/
theorem WellFormed.walk_down (h : tree.WellFormed) {f : Path × Bytes} (hf : f ∈ tree.files)
    (place names : Path) (hpath : f.1 = place ++ names) :
    tree.walk place names = .ok f.1 := by
  induction names generalizing place with
  | nil => simp [walk, hpath]
  | cons name names ih =>
    have hdirectory : tree.kind? place = some .directory := by
      refine h.above f hf place (hpath ▸ List.prefix_append _ _) ?_
      intro heq
      simp [← heq] at hpath
    have hname : Path.IsName name := h.names f hf name (by simp [hpath])
    rw [walk, hdirectory]
    simp only [hname.ne_dots, if_false]
    exact ih (place ++ [name]) (by simp [hpath])

/-- What a written path leads to is what stands there. -/
theorem resolve_ok {path : String} {place : Path} {kind : Option Kind}
    (h : tree.resolve path = .ok (place, kind)) :
    path ≠ "" ∧ tree.walk (tree.origin path) (Path.parts path) = .ok place ∧
      tree.kind? place = kind := by
  rw [resolve] at h
  split at h
  · simp at h
  next hpath =>
    split at h
    · simp at h
    next found hwalk =>
      split at h
      next content hkind =>
        split at h
        · simp at h
        · obtain ⟨rfl, rfl⟩ : found = place ∧ some (.file content) = kind := by simpa using h
          exact ⟨hpath, hwalk, hkind⟩
      next =>
        obtain ⟨rfl, rfl⟩ : found = place ∧ tree.kind? found = kind := by simpa using h
        exact ⟨hpath, hwalk, rfl⟩

/-! ### The order in which a tree is enumerated -/

theorem kind?_perm {other : FileTree} (hdistinct : (tree.files.map Prod.fst).Nodup)
    (hfiles : other.files.Perm tree.files) (hdirectories : other.directories = tree.directories)
    (path : Path) : other.kind? path = tree.kind? path := by
  have hdistinct' : (other.files.map Prod.fst).Nodup := (hfiles.map Prod.fst).nodup_iff.mpr hdistinct
  have hfile : other.file? path = tree.file? path := by
    ext content
    rw [file?_eq_some hdistinct, file?_eq_some hdistinct', hfiles.mem_iff]
  rw [kind?, kind?, hfile, hdirectories]

theorem walk_congr {other : FileTree} (hkind : ∀ path, other.kind? path = tree.kind? path)
    (here : Path) (parts : List String) : other.walk here parts = tree.walk here parts := by
  induction parts generalizing here with
  | nil => rfl
  | cons part parts ih => simp only [walk, hkind, ih]

theorem resolve_perm (other : FileTree) (hdistinct : (tree.files.map Prod.fst).Nodup)
    (hfiles : other.files.Perm tree.files) (hdirectories : other.directories = tree.directories)
    (hhere : other.here = tree.here) (path : String) : other.resolve path = tree.resolve path := by
  have hkind := kind?_perm hdistinct hfiles hdirectories
  simp only [resolve, origin, hhere, walk_congr hkind, hkind]

theorem WellFormed.perm {other : FileTree} (h : tree.WellFormed)
    (hfiles : other.files.Perm tree.files) (hdirectories : other.directories = tree.directories) :
    other.WellFormed where
  distinct := (hfiles.map Prod.fst).nodup_iff.mpr h.distinct
  above f hf place hplace hne := by
    rw [kind?_perm h.distinct hfiles hdirectories]
    exact h.above f (hfiles.mem_iff.mp hf) place hplace hne
  names f hf := h.names f (hfiles.mem_iff.mp hf)

end FileTree

/-! ## Paths of segments -/

section SegmentPath

variable {root : String} {names : Path}

theorem segmentPath_ne_empty (hroot : root ≠ "") (hnames : ∀ name ∈ names, Path.IsName name) :
    segmentPath root names ≠ "" := by
  induction names generalizing root with
  | nil => exact hroot
  | cons name names ih =>
    exact ih (Path.join_ne_empty hroot (hnames name (by simp))) fun n hn => hnames n (by simp [hn])

theorem parts_segmentPath (hroot : root ≠ "") (hnames : ∀ name ∈ names, Path.IsName name) :
    Path.parts (segmentPath root names) = Path.parts root ++ names := by
  induction names generalizing root with
  | nil => simp [segmentPath]
  | cons name names ih =>
    have hname := hnames name (by simp)
    have h := ih (Path.join_ne_empty hroot hname) fun n hn => hnames n (by simp [hn])
    rw [Path.parts_join hroot hname, List.append_assoc] at h
    exact h

theorem startsWith_segmentPath (hroot : root ≠ "") (hnames : ∀ name ∈ names, Path.IsName name) :
    (segmentPath root names).startsWith "/" = root.startsWith "/" := by
  induction names generalizing root with
  | nil => rfl
  | cons name names ih =>
    have hname := hnames name (by simp)
    have h := ih (Path.join_ne_empty hroot hname) fun n hn => hnames n (by simp [hn])
    exact h.trans (Path.startsWith_join hroot hname)

theorem namesDirectory_segmentPath (hroot : root ≠ "") (hnames : ∀ name ∈ names, Path.IsName name)
    (hne : names ≠ []) : Path.namesDirectory (segmentPath root names) = false := by
  obtain ⟨above, name, rfl⟩ := (List.eq_nil_or_concat' names).resolve_left hne
  have hname := hnames name (by simp)
  have habove : segmentPath root above ≠ "" :=
    segmentPath_ne_empty hroot fun n hn => hnames n (List.mem_append_left _ hn)
  rw [segmentPath, List.foldl_append]
  exact Path.namesDirectory_join habove hname

end SegmentPath

/-! ## Segments -/

section Segments

variable {files : FileTree} {root start : String} {place : Path} {kind : FileTree.Kind}

/-- A file below a place, by the names that lead down to it, if the path of these starts with some
text. -/
def segmentBelow? (place : Path) (start : String) (f : Path × Bytes) : Option (Path × Bytes) :=
  if place.isPrefixOf f.1 && startsWith start (f.1.drop place.length) then
    some (f.1.drop place.length, f.2)
  else none

/-- The files below a place whose path from there starts with some text, with their content and in the
order of that path. -/
def segmentsBelow (files : FileTree) (place : Path) (start : String) : List (Path × Bytes) :=
  (files.files.filterMap (segmentBelow? place start)).mergeSort fun a b =>
    Bytes.le (Utf8.encode a.1.text) (Utf8.encode b.1.text)

theorem segmentBelow?_eq_some {f segment : Path × Bytes} :
    segmentBelow? place start f = some segment ↔
      f = (place ++ segment.1, segment.2) ∧ startsWith start segment.1 = true := by
  obtain ⟨path, content⟩ := f
  obtain ⟨names, content'⟩ := segment
  rw [segmentBelow?]
  constructor
  · intro h
    split at h
    next hcond =>
      rw [Bool.and_eq_true, List.isPrefixOf_iff_prefix] at hcond
      obtain ⟨⟨names', rfl⟩, hstart⟩ := hcond
      simp only [List.drop_left, Option.some.injEq, Prod.mk.injEq] at h hstart
      obtain ⟨rfl, rfl⟩ := h
      exact ⟨rfl, hstart⟩
    next => simp at h
  · rintro ⟨h, hstart⟩
    obtain ⟨rfl, rfl⟩ := Prod.mk.inj h
    simp [List.isPrefixOf_iff_prefix, hstart]

theorem mem_segmentsBelow {segment : Path × Bytes} :
    segment ∈ segmentsBelow files place start ↔
      (place ++ segment.1, segment.2) ∈ files.files ∧ startsWith start segment.1 = true := by
  rw [segmentsBelow, (List.mergeSort_perm _ _).mem_iff, List.mem_filterMap]
  simp only [segmentBelow?_eq_some]
  constructor
  · rintro ⟨f, hf, rfl, hstart⟩
    exact ⟨hf, hstart⟩
  · rintro ⟨hf, hstart⟩
    exact ⟨_, hf, rfl, hstart⟩

theorem sorted_segmentsBelow (files : FileTree) (place : Path) (start : String) :
    (segmentsBelow files place start).Pairwise fun a b =>
      Bytes.le (Utf8.encode a.1.text) (Utf8.encode b.1.text) = true := by
  apply List.pairwise_mergeSort
  · intro a b c
    exact Bytes.le_trans _ _ _
  · intro a b
    exact Bytes.le_total _ _

/-- What is listed are the segments below the place that the root leads to. -/
theorem listSegments_eq (hroot : files.resolve root = .ok (place, some kind)) :
    listSegments files root start =
      .ok ((segmentsBelow files place start).map fun segment => segmentPath root segment.1) := by
  have hfound : (files.files.filterMap (segmentBelow? place start)).map Prod.fst =
      (files.files.filterMap fun f =>
        if place.isPrefixOf f.1 then some (f.1.drop place.length) else none).filter
        (startsWith start) := by
    rw [List.map_filterMap, List.filter_filterMap]
    refine List.filterMap_congr fun f _ => ?_
    by_cases hplace : place.isPrefixOf f.1 = true
    · by_cases hstart : startsWith start (f.1.drop place.length) = true <;>
        simp [segmentBelow?, hplace, hstart, Option.filter]
    · simp [segmentBelow?, hplace]
  have hsort : (segmentsBelow files place start).map Prod.fst =
      ((files.files.filterMap (segmentBelow? place start)).map Prod.fst).mergeSort fun a b =>
        Bytes.le (Utf8.encode a.text) (Utf8.encode b.text) :=
    List.map_mergeSort fun _ _ _ _ => rfl
  have hbelow : files.filesBelow root = .ok (files.files.filterMap fun f =>
      if place.isPrefixOf f.1 then some (f.1.drop place.length) else none) := by
    rw [FileTree.filesBelow, hroot]
  rw [listSegments, hbelow]
  simp only [← hfound, ← hsort, List.map_map]
  rfl

variable (hfiles : files.WellFormed)

include hfiles

theorem names_segmentsBelow {segment : Path × Bytes} (h : segment ∈ segmentsBelow files place start) :
    ∀ name ∈ segment.1, Path.IsName name := fun name hname =>
  hfiles.names _ (mem_segmentsBelow.mp h).1 name (List.mem_append_right _ hname)

/-- Two segments with the same path are the same. -/
theorem segment_ext {a b : Path × Bytes} (ha : a ∈ segmentsBelow files place start)
    (hb : b ∈ segmentsBelow files place start)
    (htext : Utf8.encode a.1.text = Utf8.encode b.1.text) : a = b := by
  have hnames : a.1 = b.1 :=
    Path.text_injective (names_segmentsBelow hfiles ha) (names_segmentsBelow hfiles hb)
      (Utf8.encode_injective htext)
  have hpath : (place ++ a.1, a.2) = (place ++ b.1, b.2) :=
    List.inj_on_of_nodup_map hfiles.distinct (mem_segmentsBelow.mp ha).1 (mem_segmentsBelow.mp hb).1
      (by rw [hnames])
  exact Prod.ext hnames (Prod.mk.inj hpath).2

theorem nodup_segmentsBelow : (segmentsBelow files place start).Nodup := by
  rw [segmentsBelow, (List.mergeSort_perm _ _).nodup_iff]
  refine List.Nodup.filterMap (fun f g segment hf hg => ?_) (List.Nodup.of_map _ hfiles.distinct)
  exact (segmentBelow?_eq_some.mp hf).1.trans (segmentBelow?_eq_some.mp hg).1.symm

/-- The segments come in the order of their paths, and none comes twice. -/
theorem segmentsBelow_increasing : (segmentsBelow files place start).Pairwise fun a b =>
    Bytes.Precedes (Utf8.encode a.1.text) (Utf8.encode b.1.text) := by
  refine ((sorted_segmentsBelow files place start).and (nodup_segmentsBelow hfiles)).imp_of_mem fun {a b} ha hb h => ?_
  exact ⟨h.1, fun htext => h.2 (segment_ext hfiles ha hb htext)⟩

/-- The order in which the files are enumerated makes no difference. -/
theorem segmentsBelow_perm {other : FileTree} (hperm : other.files.Perm files.files) :
    segmentsBelow other place start = segmentsBelow files place start := by
  have hsame : (segmentsBelow other place start).Perm (segmentsBelow files place start) :=
    (List.mergeSort_perm _ _).trans ((hperm.filterMap _).trans (List.mergeSort_perm _ _).symm)
  refine hsame.eq_of_pairwise (fun a b ha hb hab hba => ?_) (sorted_segmentsBelow other place start)
    (sorted_segmentsBelow files place start)
  exact segment_ext hfiles (hsame.mem_iff.mp ha) hb (Bytes.le_antisymm hab hba)

/-- Each segment can be read by the path that is listed. -/
theorem read_segmentPath (hroot : files.resolve root = .ok (place, some kind))
    {segment : Path × Bytes} (h : segment ∈ segmentsBelow files place start) :
    files.read (segmentPath root segment.1) = .ok segment.2 := by
  obtain ⟨names, content⟩ := segment
  have hmem : (place ++ names, content) ∈ files.files := (mem_segmentsBelow.mp h).1
  have hnames : ∀ name ∈ names, Path.IsName name := names_segmentsBelow hfiles h
  obtain ⟨hne, hwalk, hkind⟩ := FileTree.resolve_ok hroot
  by_cases hempty : names = []
  · -- The root is the segment itself.
    subst hempty
    have hfile := hfiles.kind?_file hmem
    rw [List.append_nil, hkind] at hfile
    rw [segmentPath, List.foldl_nil, FileTree.read, hroot, hfile]
  · have hdown : files.walk (files.origin (segmentPath root names))
        (Path.parts (segmentPath root names)) = .ok (place ++ names) := by
      rw [FileTree.origin, startsWith_segmentPath hne hnames, parts_segmentPath hne hnames,
        FileTree.walk_append]
      rw [FileTree.origin] at hwalk
      rw [hwalk]
      exact hfiles.walk_down hmem place names rfl
    have hresolve : files.resolve (segmentPath root names) =
        .ok (place ++ names, some (.file content)) := by
      rw [FileTree.resolve, if_neg (segmentPath_ne_empty hne hnames), hdown]
      simp only [hfiles.kind?_file hmem, namesDirectory_segmentPath hne hnames hempty]
      rfl
    rw [FileTree.read, hresolve]

end Segments

end EventReplay
