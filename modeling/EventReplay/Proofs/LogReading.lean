import EventReplay.Proofs.LogSteps

/-!
# Reading a log to its end

A log is drained by handing out one event after another, each of which takes the reader past the lines up
to the next one. So a reader keeps of all lines of all segments exactly the events that are in order, and
counts the others (`LogReader.drain_segments`).
-/

set_option autoImplicit false

namespace EventReplay.LogReader

variable {disk : Disk} {reader : LogReader} {steps : List LogStep}

/-- Handing out an event is the first step of handing out all of them. -/
theorem drain_next {reader' : LogReader} {event : Event} {notices more : List Notice}
    (h : next disk reader = ⟨.ok (some event), reader', more⟩) :
    drain disk reader notices =
      ((drain disk reader' (notices ++ more)).1, event :: (drain disk reader' (notices ++ more)).2) := by
  fun_cases drain disk reader notices with
  | case1 hahead => simp [next, hahead] at h
  | case2 event' hahead fault reader₁ more' hread => simp [next, hahead, hread] at h
  | case3 event' hahead reader₁ more' hread =>
    obtain ⟨rfl, rfl, rfl⟩ : event' = event ∧ { reader₁ with ahead := none } = reader' ∧ more' = more := by
      simpa [next, hahead, hread] using h
    rw [drain]
  | case4 event' hahead following reader₁ more' hread pull events hdrain =>
    obtain ⟨rfl, rfl, rfl⟩ : event' = event ∧ { reader₁ with ahead := some following } = reader' ∧
        more' = more := by
      simpa [next, hahead, hread] using h
    rw [hdrain]

/-- Handing out all events makes all steps that are left. -/
theorem drain_passes (reader : LogReader) (notices : List Notice) (hfaces : reader.Faces steps)
    (hallows : ∀ step ∈ steps, disk.Allows step) (hended : reader.ahead = none → steps = []) :
    ∃ reader' notices' kept,
      drain disk reader notices = (⟨.ok (), reader', notices'⟩, reader.ahead.toList ++ kept) ∧
      reader.Passes reader' (linesRead steps) kept ∧ reader'.pending = [] := by
  fun_induction drain disk reader notices generalizing steps with
  | case1 reader notices hahead =>
    obtain rfl := hended hahead
    exact ⟨reader, notices, [], by simp [hahead], .refl _, hfaces.closed_of_nil.2⟩
  | case2 reader notices event hahead fault reader₁ more hread =>
    obtain ⟨answer, reader', notices', left, heq, -⟩ := readOn_eq_ok (hfaces.look none) hallows
    simp [hread] at heq
  | case3 reader notices event hahead reader₁ more hread =>
    obtain ⟨answer, reader', notices', left, heq, hreads⟩ := readOn_eq_ok (hfaces.look none) hallows
    obtain ⟨rfl, rfl, rfl⟩ : none = answer ∧ reader₁ = reader' ∧ more = notices' := by
      simpa [hread] using heq
    obtain rfl := hreads.ended rfl
    obtain ⟨made, rfl, hpasses⟩ := hreads.passes
    refine ⟨{ reader₁ with ahead := none }, notices ++ more, [], by rw [hahead]; rfl, ?_,
      hreads.faces.closed_of_nil.2⟩
    rw [List.append_nil]
    exact hpasses.look none
  | case4 reader notices event hahead following reader₁ more hread pull events hdrain ih =>
    obtain ⟨answer, reader', notices', left, heq, hreads⟩ := readOn_eq_ok (hfaces.look none) hallows
    obtain ⟨rfl, rfl, rfl⟩ : some following = answer ∧ reader₁ = reader' ∧ more = notices' := by
      simpa [hread] using heq
    obtain ⟨made, rfl, hpasses⟩ := hreads.passes
    have hfaces₁ : reader₁.Faces left := by simpa using hreads.faces
    obtain ⟨reader₂, notices₂, kept, heq₂, hpasses₂, hpending⟩ := ih (hfaces₁.look (some following))
      (fun step h => hallows step (List.mem_append_right made h)) (by simp)
    rw [hdrain] at heq₂
    obtain ⟨rfl, rfl⟩ := Prod.mk.inj heq₂
    refine ⟨reader₂, notices₂, following :: kept, by simp [hahead], ?_, hpending⟩
    rw [linesRead_append]
    exact (hpasses.look (some following)).trans hpasses₂

/-- A reader of segments that can be read keeps the events of all their lines and counts the others. -/
theorem drain_segments {files : FileTree} {root start : String} {paths : List String}
    {contents : List Bytes} (hlist : listSegments files root start = .ok paths)
    (hread : List.Forall₂ (fun path content => files.read path = .ok content) paths contents) :
    ∃ reader notices drained more kept,
      ofRoot files root start = .ok (reader, notices) ∧
      drain files reader [] = (⟨.ok (), drained, more⟩, kept) ∧
      LogReader.Passes { pending := paths } drained (contents.flatMap Bytes.lines) kept ∧
      drained.pending = [] := by
  obtain ⟨hlength, hzip⟩ := List.forall₂_iff_zip.mp hread
  have hpaths : (paths.zip contents).map Prod.fst = paths := List.map_fst_zip hlength.le
  have hcontents : (paths.zip contents).map Prod.snd = contents := List.map_snd_zip hlength.ge
  have hlines : linesRead (stepsOf (paths.zip contents)) = contents.flatMap Bytes.lines := calc
    _ = (paths.zip contents).flatMap fun segment => Bytes.lines segment.2 := linesRead_stepsOf _
    _ = ((paths.zip contents).map Prod.snd).flatMap Bytes.lines := (List.flatMap_map ..).symm
    _ = contents.flatMap Bytes.lines := by rw [hcontents]
  have hfaces := faces_start (paths.zip contents)
  have hallows : ∀ step ∈ stepsOf (paths.zip contents), Disk.Allows files step :=
    FileTree.allows_of_mem_stepsOf fun segment h => hzip h
  rw [hpaths] at hfaces
  obtain ⟨ahead, reader, notices, left, heq, hreads⟩ := readOn_eq_ok hfaces hallows
  obtain ⟨made, hsteps, hpasses⟩ := hreads.passes
  have hfaces₁ : reader.Faces left := by simpa using hreads.faces
  obtain ⟨drained, more, kept, hdrain, hpasses', hpending⟩ :=
    drain_passes { reader with ahead } [] (hfaces₁.look ahead)
      (fun step h => hallows step (hsteps ▸ List.mem_append_right made h)) hreads.ended
  refine ⟨{ reader with ahead }, notices, drained, more, ahead.toList ++ kept, ?_, hdrain, ?_, hpending⟩
  · rw [ofRoot, hlist]
    simp only [heq]
  · rw [← hlines, hsteps, linesRead_append]
    exact (hpasses.look ahead).trans hpasses'

/-- A reader of a log reads the files below its root whose path from there starts with a text, each once
and in the order of the bytes of that path, in whatever order the tree is enumerated. It hands out the
records of their lines in this order, but for those whose time is below that of the last one it kept, and
every line that is not blank is counted. -/
theorem reads_log (files : FileTree) (root start : String) {place : Path} {kind : FileTree.Kind}
    (hfiles : files.WellFormed) (hroot : files.resolve root = .ok (place, some kind)) :
    let segments := segmentsBelow files place start
    let lines := segments.flatMap fun segment => Bytes.lines segment.2
    (∀ names content, (names, content) ∈ segments ↔
      (place ++ names, content) ∈ files.files ∧ startsWith start names = true) ∧
    (segments.Pairwise fun a b => Bytes.Precedes (Utf8.encode a.1.text) (Utf8.encode b.1.text)) ∧
    ∀ enumerated, enumerated.Perm files.files →
      let files := { files with files := enumerated }
      listSegments files root start = .ok (segments.map fun segment => segmentPath root segment.1) ∧
      (∀ segment ∈ segments, files.read (segmentPath root segment.1) = .ok segment.2) ∧
      ∃ reader notices drained more kept,
        ofRoot files root start = .ok (reader, notices) ∧
        drain files reader [] = (⟨.ok (), drained, more⟩, kept) ∧
        kept = keepOrdered none (logRecords lines) ∧
        (kept.Pairwise fun a b => a.timestamp ≤ b.timestamp) ∧
        drained.counts.segments = segments.length ∧
        drained.counts.events = kept.length ∧
        drained.counts.malformed + (logRecords lines).length = (writtenLines lines).length ∧
        drained.counts.outOfOrder + kept.length = (logRecords lines).length ∧
        drained.counts.events + drained.counts.malformed + drained.counts.outOfOrder =
          (writtenLines lines).length := by
  intro segments lines
  refine ⟨fun _ _ => mem_segmentsBelow, segmentsBelow_increasing hfiles, fun enumerated hperm => ?_⟩
  intro other
  have hother : other.WellFormed := hfiles.perm hperm rfl
  have hresolve : other.resolve root = files.resolve root :=
    FileTree.resolve_perm other hfiles.distinct hperm rfl rfl root
  have hroot' : other.resolve root = .ok (place, some kind) := hresolve.trans hroot
  have hsegments : segmentsBelow other place start = segments := segmentsBelow_perm hfiles hperm
  have hlist : listSegments other root start =
      .ok (segments.map fun segment => segmentPath root segment.1) :=
    hsegments ▸ listSegments_eq hroot'
  have hread : ∀ segment ∈ segments, other.read (segmentPath root segment.1) = .ok segment.2 :=
    fun segment h => read_segmentPath hother hroot' (hsegments ▸ h)
  refine ⟨hlist, hread, ?_⟩
  have hreads : List.Forall₂ (fun path content => other.read path = .ok content)
      (segments.map fun segment => segmentPath root segment.1) (segments.map Prod.snd) := by
    rw [List.forall₂_map_left_iff, List.forall₂_map_right_iff]
    exact List.forall₂_same.mpr hread
  obtain ⟨reader, notices, drained, more, kept, hreader, hdrain, hpasses, hpending⟩ :=
    drain_segments hlist hreads
  have hlines : (segments.map Prod.snd).flatMap Bytes.lines = lines := List.flatMap_map ..
  rw [hlines] at hpasses
  have hkept : kept = keepOrdered none (logRecords lines) := hpasses.kept_eq
  have hevents : drained.counts.events = kept.length := by simpa using hpasses.events
  have hmalformed : drained.counts.malformed + (logRecords lines).length =
      (writtenLines lines).length := by
    simpa using hpasses.malformed
  have hold : drained.counts.outOfOrder + kept.length = (logRecords lines).length := by
    simpa using hpasses.outOfOrder
  have hopened : drained.counts.segments = segments.length := by
    simpa [hpending] using hpasses.segments
  refine ⟨reader, notices, drained, more, kept, hreader, hdrain, hkept, ?_, hopened, hevents,
    hmalformed, hold, by omega⟩
  exact hkept ▸ keepOrdered_ordered none (logRecords lines)

/-- Two segments of a log, with a blank line, a malformed one and one that comes too late. -/
def twoSegments : FileTree where
  files :=
    [(["log", "a.json"], Bytes.ofAscii
        ("[100,\"k\",1]\nnot a record\n[50,\"k\",2]\n[100,\"k\",3]")),
      (["log", "b.json"], Bytes.ofAscii "\n[200,\"k\",4]\n")]
  directories := [["log"]]

theorem reads_log_two_segments :
    twoSegments.WellFormed ∧
      ∃ reader notices drained more kept,
        ofRoot ({ twoSegments with files := twoSegments.files.reverse } : FileTree) "/log" "" =
          .ok (reader, notices) ∧
        drain ({ twoSegments with files := twoSegments.files.reverse } : FileTree) reader [] =
          (⟨.ok (), drained, more⟩, kept) ∧
        kept.map Event.timestamp = [100, 100, 200] ∧
        drained.counts = ⟨2, 3, 1, 1⟩ := by
  have hfiles : twoSegments.WellFormed := by
    refine ⟨by decide, fun f hf place hplace hne => ?_, fun f hf name hname => ?_⟩
    · have hplaces : place ∈ f.1.inits := (List.mem_inits place f.1).mpr hplace
      have hcases : ∀ f ∈ twoSegments.files, ∀ place ∈ f.1.inits, place ≠ f.1 →
          place = [] ∨ place = ["log"] := by decide
      obtain rfl | rfl := hcases f hf place hplaces hne <;> rfl
    · have hnames : ∀ f ∈ twoSegments.files, ∀ name ∈ f.1,
          name ≠ "" ∧ name ≠ "." ∧ name ≠ ".." ∧ '/' ∉ name.toList := by decide
      obtain ⟨hempty, hdot, hdots, hslash⟩ := hnames f hf name hname
      exact ⟨hempty, hdot, hdots, hslash⟩
  have hparts : Path.parts "/log" = ["log"] := by
    rw [Path.parts_eq]
    decide +kernel
  have horigin : "/log".startsWith "/" = true := by decide +kernel
  have hroot : twoSegments.resolve "/log" = .ok (["log"], some .directory) := by
    simp [FileTree.resolve, hparts, FileTree.origin, horigin, FileTree.walk, FileTree.kind?,
      FileTree.file?, twoSegments]
  have hsegments : segmentsBelow twoSegments ["log"] "" =
      twoSegments.files.map fun f => (f.1.drop 1, f.2) := by
    have hfound : twoSegments.files.filterMap (segmentBelow? ["log"] "") =
        twoSegments.files.map fun f => (f.1.drop 1, f.2) := by decide +kernel
    rw [segmentsBelow, hfound]
    exact List.mergeSort_of_pairwise (by decide +kernel)
  have hkept : (keepOrdered none (logRecords ((segmentsBelow twoSegments ["log"] "").flatMap
      fun segment => Bytes.lines segment.2))).map Event.timestamp = [100, 100, 200] ∧
      (logRecords ((segmentsBelow twoSegments ["log"] "").flatMap
        fun segment => Bytes.lines segment.2)).length = 4 ∧
      (writtenLines ((segmentsBelow twoSegments ["log"] "").flatMap
        fun segment => Bytes.lines segment.2)).length = 5 := by
    rw [hsegments]
    decide +kernel
  obtain ⟨-, -, h⟩ := reads_log twoSegments "/log" "" hfiles hroot
  obtain ⟨-, -, reader, notices, drained, more, kept, hreader, hdrain, rfl, -, hopened, hevents,
    hmalformed, hold, -⟩ := h twoSegments.files.reverse (List.reverse_perm _)
  refine ⟨hfiles, reader, notices, drained, more, _, hreader, hdrain, hkept.1, ?_⟩
  have hlength := congrArg List.length hkept.1
  rw [List.length_map] at hlength
  rw [hlength] at hevents hold
  rw [hkept.2.1] at hmalformed hold
  rw [hkept.2.2] at hmalformed
  rw [hsegments] at hopened
  have hmalformed' : drained.counts.malformed = 1 := Nat.add_right_cancel hmalformed
  have hold' : drained.counts.outOfOrder = 1 := Nat.add_right_cancel hold
  calc drained.counts
      = ⟨drained.counts.segments, drained.counts.events, drained.counts.malformed,
          drained.counts.outOfOrder⟩ := rfl
    _ = ⟨2, 3, 1, 1⟩ := by
      rw [hopened, hevents, hmalformed', hold']
      rfl

end EventReplay.LogReader
