import EventReplay.Log.Writer
import EventReplay.Proofs.LogReading
import EventReplay.Proofs.WriterQueue

/-!
# Files that are written

Opening a file for appending puts it where its path leads, and nothing else in the tree becomes a file
(`FileTree.opens_openAppendIn`). So what a writer stores is read by the path that it was opened with, and a
reader of a log finds this one segment at that path (`LogWriter.found_of_ofPath`).
-/

set_option autoImplicit false

namespace EventReplay

/-- A written path is split at its slashes. -/
theorem Path.splitOn_slash (path : String) :
    path.splitOn "/" = (path.toList.splitOnP (· == '/')).map String.ofList := by
  rw [String.splitOn, if_neg (by decide)]
  simpa using splitOnAux_slash [] [] path.toList []

namespace FileTree

variable {tree tree' : FileTree} {place : Path}

/-! ## Writing a file -/

theorem file?_write (tree : FileTree) (place path : Path) (content : Bytes) :
    (tree.write place content).file? path = if path = place then some content else tree.file? path := by
  unfold file? write
  by_cases hpath : path = place
  · simp [hpath]
  · have hne : ¬ place = path := fun h => hpath h.symm
    rw [if_neg hpath, List.find?_cons_of_neg (by simpa using hne), List.find?_filter]
    congr 2
    funext f
    by_cases hf : f.1 = path
    · simp [hf, hpath]
    · simp [hf]

theorem kind?_write (tree : FileTree) (place path : Path) (content : Bytes) :
    (tree.write place content).kind? path =
      if path = place then some (.file content) else tree.kind? path := by
  rw [kind?, file?_write]
  by_cases hpath : path = place
  · simp [hpath]
  · rw [if_neg hpath, if_neg hpath]
    rfl

/-- A walk leads where it led before: it never passed the place, which is no directory. -/
theorem walk_write (hplace : tree.kind? place ≠ some .directory) (content : Bytes)
    {here target : Path} {parts : List String} (h : tree.walk here parts = .ok target) :
    (tree.write place content).walk here parts = .ok target := by
  induction parts generalizing here with
  | nil => exact h
  | cons part parts ih =>
      rw [walk] at h ⊢
      split at h
      next hdirectory =>
        have hne : here ≠ place := by
          rintro rfl
          exact hplace hdirectory
        rw [kind?_write, if_neg hne, hdirectory]
        exact ih h
      next => simp at h
      next => simp at h

/-! ## Opening a file for appending -/

/-- Making directories makes no file, and what is a directory stays one. -/
structure Grows (tree tree' : FileTree) : Prop where
  files : tree'.files = tree.files
  here : tree'.here = tree.here
  directory : ∀ path, tree.kind? path = some .directory → tree'.kind? path = some .directory

theorem Grows.refl (tree : FileTree) : Grows tree tree := ⟨rfl, rfl, fun _ h => h⟩

theorem Grows.trans {tree'' : FileTree} (h : Grows tree tree') (h' : Grows tree' tree'') :
    Grows tree tree'' :=
  ⟨h'.files.trans h.files, h'.here.trans h.here, fun path hpath => h'.directory path (h.directory path hpath)⟩

theorem grows_addDirectory (tree : FileTree) (place : Path) : Grows tree (tree.addDirectory place) := by
  unfold addDirectory
  split
  · exact .refl tree
  · refine ⟨rfl, rfl, fun path hpath => ?_⟩
    unfold kind? at hpath ⊢
    split at hpath
    · simp at hpath
    next hnone =>
      have hnone' : FileTree.file? { tree with directories := place :: tree.directories } path = none := hnone
      rw [hnone']
      rw [ite_eq_iff] at hpath
      obtain ⟨h, -⟩ := hpath.resolve_right (by simp)
      exact if_pos (h.imp_right (List.mem_cons_of_mem _))

theorem grows_makeBelow {here : Path} {parts : List String} (h : tree.makeBelow here parts = .ok tree') :
    Grows tree tree' := by
  induction parts generalizing tree here with
  | nil =>
      obtain rfl := Except.ok.inj h
      exact .refl _
  | cons part parts ih =>
      simp only [makeBelow] at h
      generalize (if part = ".." then here.dropLast else here ++ [part]) = place at h
      split at h
      next => simp at h
      next => exact ih h
      next => exact (tree.grows_addDirectory _).trans (ih h)

/-- What opening a file comes to: the tree has got directories and perhaps an empty file, which is where
its path leads. -/
structure Opens (tree : FileTree) (path : String) (place : Path) (tree' : FileTree) : Prop where
  named : path ≠ ""
  file : Path.namesDirectory path = false
  /-- The tree before the file was put into it, if it was not there. -/
  grown : ∃ grown, Grows tree grown ∧ grown.walk (grown.origin path) (Path.parts path) = .ok place ∧
    grown.kind? place ≠ some .directory ∧
    ((∃ content, grown.kind? place = some (.file content)) ∧ tree' = grown ∨
      tree' = grown.write place [])

/-- A path that leads to a file does not end like that of a directory. -/
theorem namesDirectory_of_resolve {path : String} {content : Bytes}
    (h : tree.resolve path = .ok (place, some (.file content))) : Path.namesDirectory path = false := by
  rw [resolve] at h
  split at h
  · simp at h
  · split at h
    · simp at h
    next found hwalk =>
      split at h
      next =>
        split at h
        · simp at h
        next hfile => simpa using hfile
      next hkind =>
        obtain ⟨rfl, hfile⟩ := Prod.mk.inj (Except.ok.inj h)
        exact absurd hfile (hkind content)

theorem opens_openAppendIn {path : String} (h : tree.openAppendIn path = .ok (place, tree')) :
    Opens tree path place tree' := by
  -- the directories above the file may have to be made
  obtain ⟨grown, hgrows, hopen⟩ : ∃ grown, Grows tree grown ∧ grown.openAppend path = .ok (place, tree') := by
    unfold openAppendIn at h
    split at h
    · exact ⟨tree, .refl tree, h⟩
    · split at h
      · simp at h
      next hmake => exact ⟨_, grows_makeBelow hmake, h⟩
  unfold openAppend at hopen
  split at hopen
  next => simp at hopen
  next => simp at hopen
  next place' content hresolve =>
    obtain ⟨rfl, rfl⟩ := Prod.mk.inj (Except.ok.inj hopen)
    obtain ⟨hnamed, hwalk, hkind⟩ := resolve_ok hresolve
    exact ⟨hnamed, namesDirectory_of_resolve hresolve, grown, hgrows, hwalk, by simp [hkind],
      .inl ⟨⟨content, hkind⟩, rfl⟩⟩
  next place' hresolve =>
    split at hopen
    next => simp at hopen
    next hfile =>
      obtain ⟨rfl, rfl⟩ := Prod.mk.inj (Except.ok.inj hopen)
      obtain ⟨hnamed, hwalk, hkind⟩ := resolve_ok hresolve
      exact ⟨hnamed, by simpa using hfile, grown, hgrows, hwalk, by simp [hkind], .inr rfl⟩

/-! ## Reading what was stored -/

variable {path : String}

/-- What is put where a file was opened is found by the path of the file. -/
theorem Opens.resolve (h : Opens tree path place tree') (content : Bytes) :
    (tree'.update place content).resolve path = .ok (place, some (.file content)) ∧
    tree'.update place content = tree'.write place content := by
  obtain ⟨hnamed, hfile, grown, hgrows, hwalk, hplace, htree⟩ := h
  have hfile' : ∃ old, tree'.file? place = some old := by
    rcases htree with ⟨⟨old, hold⟩, rfl⟩ | rfl
    · refine ⟨old, ?_⟩
      unfold kind? at hold
      split at hold
      next hsome => cases hold; exact hsome
      next => split at hold <;> simp at hold
    · exact ⟨[], by rw [file?_write, if_pos rfl]⟩
  obtain ⟨old, hold⟩ := hfile'
  have hupdate : tree'.update place content = tree'.write place content := by
    rw [update, hold]
  have hwalk' : (tree'.write place content).walk ((tree'.write place content).origin path)
      (Path.parts path) = .ok place := by
    rcases htree with ⟨-, rfl⟩ | rfl
    · exact walk_write hplace content hwalk
    · refine walk_write ?_ content (walk_write hplace [] hwalk)
      rw [kind?_write, if_pos rfl]
      simp
  refine ⟨?_, hupdate⟩
  rw [hupdate, FileTree.resolve, if_neg hnamed, hwalk']
  simp only [kind?_write, if_true, hfile, Bool.false_eq_true, if_false]

theorem Opens.read (h : Opens tree path place tree') (content : Bytes) :
    (tree'.update place content).read path = .ok content := by
  rw [FileTree.read, (h.resolve content).1]

/-- In a well-formed tree nothing else stands at or below the file that was opened. -/
theorem Opens.alone (h : Opens tree path place tree') (hfiles : tree.WellFormed) (content : Bytes) :
    segmentsBelow (tree'.update place content) place "" = [([], content)] := by
  rw [(h.resolve content).2]
  obtain ⟨-, -, grown, hgrows, -, hplace, htree⟩ := h
  have hothers : tree'.files.filter (fun f => f.1 ≠ place) = tree.files.filter fun f => f.1 ≠ place := by
    rcases htree with ⟨-, rfl⟩ | rfl
    · rw [hgrows.files]
    · simp [write, hgrows.files]
  have hnone : (tree.files.filter fun f => f.1 ≠ place).filterMap (segmentBelow? place "") = [] := by
    rw [List.filterMap_eq_nil_iff]
    intro f hf
    obtain ⟨hmem, hne⟩ := List.mem_filter.mp hf
    rw [segmentBelow?, if_neg]
    rw [Bool.and_eq_true, List.isPrefixOf_iff_prefix]
    rintro ⟨hbegins, -⟩
    have hdirectory := hfiles.above f hmem place hbegins fun h => by simp [← h] at hne
    exact hplace (hgrows.directory place hdirectory)
  have hfirst : segmentBelow? place "" (place, content) = some ([], content) := by
    rw [segmentBelow?_eq_some]
    exact ⟨by simp, rfl⟩
  rw [segmentsBelow, write, hothers, List.filterMap_cons, hfirst, hnone, List.mergeSort_singleton]

end FileTree

/-! ## Segments that are written -/

namespace LogWriter

variable {files files₁ : FileTree} {path : String} {writer : LogWriter}

/-- What a writer of a log starts with: the content of its file, an empty buffer, and a device that takes
all bytes. -/
theorem ofPath_eq_ok (h : ofPath files path = .ok (writer, files₁)) :
    FileTree.Opens files path writer.place files₁ ∧ writer.file.Takes ∧ writer.file.pending = [] := by
  unfold ofPath at h
  split at h
  · simp at h
  next place tree hopen =>
    obtain ⟨rfl, rfl⟩ := Prod.mk.inj (Except.ok.inj h)
    exact ⟨FileTree.opens_openAppendIn hopen, ⟨rfl, rfl⟩, rfl⟩

/-- A reader of a log finds what a writer has stored, and nothing else, at the path of the writer. -/
theorem found_of_ofPath (hfiles : files.WellFormed) (h : ofPath files path = .ok (writer, files₁))
    {written : LogWriter} (hplace : written.place = writer.place) :
    listSegments (written.store files₁) path "" = .ok [path] ∧
    (written.store files₁).read path = .ok written.file.content := by
  obtain ⟨hopens, -, -⟩ := ofPath_eq_ok h
  rw [store, hplace]
  refine ⟨?_, hopens.read _⟩
  rw [listSegments_eq (hopens.resolve _).1, hopens.alone hfiles]
  rfl

end LogWriter

/-! ## Segments that are read -/

namespace LogReader

/-- A reader of the segments below a root hands out these events and no fault, and counts its lines so. -/
def Drains (files : FileTree) (root start : String) (kept : List Event) (counts : LogCounts) : Prop :=
  ∃ reader notices drained more, ofRoot files root start = .ok (reader, notices) ∧
    drain files reader [] = (⟨.ok (), drained, more⟩, kept) ∧ drained.counts = counts

/-- What a reader makes of a single segment. -/
theorem drains_segment {files : FileTree} {root start segment : String} {content : Bytes}
    (hlist : listSegments files root start = .ok [segment]) (hread : files.read segment = .ok content) :
    let found := logRecords (Bytes.lines content)
    let kept := keepOrdered none found
    Drains files root start kept ⟨1, kept.length, (writtenLines (Bytes.lines content)).length - found.length,
      found.length - kept.length⟩ := by
  intro found kept
  obtain ⟨reader, notices, drained, more, kept', hreader, hdrain, hpasses, hpending⟩ :=
    drain_segments hlist (.cons hread .nil)
  rw [List.flatMap_singleton] at hpasses
  obtain rfl : kept' = kept := hpasses.kept_eq
  refine ⟨reader, notices, drained, more, hreader, hdrain, ?_⟩
  have hsegments : drained.counts.segments = 1 := by simpa [hpending] using hpasses.segments
  have hevents : drained.counts.events = kept.length := by simpa using hpasses.events
  have hmalformed : drained.counts.malformed =
      (writtenLines (Bytes.lines content)).length - found.length := by
    have := hpasses.malformed
    simp only [Nat.zero_add] at this
    exact Nat.eq_sub_of_add_eq this
  have hold : drained.counts.outOfOrder = found.length - kept.length := by
    have := hpasses.outOfOrder
    simp only [Nat.zero_add] at this
    exact Nat.eq_sub_of_add_eq this
  rw [← hsegments, ← hmalformed, ← hold, ← hevents]

/-- A reader hands out one list of events. -/
theorem Drains.unique {files : FileTree} {root start : String} {kept kept' : List Event}
    {counts counts' : LogCounts} (h : Drains files root start kept counts)
    (h' : Drains files root start kept' counts') : kept = kept' ∧ counts = counts' := by
  obtain ⟨reader, notices, drained, more, hreader, hdrain, rfl⟩ := h
  obtain ⟨reader', notices', drained', more', hreader', hdrain', rfl⟩ := h'
  obtain ⟨rfl, -⟩ := Prod.mk.inj (Except.ok.inj (hreader.symm.trans hreader'))
  obtain ⟨hsame, rfl⟩ := Prod.mk.inj (hdrain.symm.trans hdrain')
  cases hsame
  exact ⟨rfl, rfl⟩

end LogReader

end EventReplay
