import Mathlib.Data.List.TakeWhile
import EventReplay.Proofs.WrittenFiles

/-!
# Opening files that are there

A walk to a file has passed the directories above it, so opening the file for appending makes none of them
and changes nothing (`FileTree.openAppendIn_of_resolve`). A stream is opened with the shards as they are
(`FileStream.ofRoot_eq_ok`): a shard that is new makes no difference to those that come after it.
-/

set_option autoImplicit false

namespace EventReplay

namespace Path

/-- A list that splits into pieces splits so between any two of them. -/
theorem split_between {s : List Char} {front back : List (List Char)} (hfront : front ≠ [])
    (hback : back ≠ []) (h : s.splitOnP (· == '/') = front ++ back) :
    ∃ before after, s = before ++ '/' :: after ∧ before.splitOnP (· == '/') = front ∧
      after.splitOnP (· == '/') = back := by
  induction s generalizing front with
  | nil =>
      obtain ⟨first, front, rfl⟩ := List.exists_cons_of_ne_nil hfront
      rw [List.splitOnP_nil, List.cons_append, List.cons.injEq] at h
      exact absurd (List.append_eq_nil_iff.mp h.2.symm).2 hback
  | cons c s ih =>
      obtain ⟨first, front, rfl⟩ := List.exists_cons_of_ne_nil hfront
      rw [List.splitOnP_cons_eq_if_modifyHead] at h
      split at h
      next hslash =>
        obtain rfl : c = '/' := by simpa using hslash
        rw [List.cons_append, List.cons.injEq] at h
        obtain ⟨rfl, h⟩ := h
        cases front with
        | nil => exact ⟨[], s, rfl, List.splitOnP_nil, h⟩
        | cons piece front =>
            obtain ⟨before, after, rfl, hbefore, hafter⟩ := ih (List.cons_ne_nil _ _) h
            refine ⟨'/' :: before, after, rfl, ?_, hafter⟩
            rw [List.splitOnP_cons_eq_if_modifyHead, if_pos hslash, hbefore]
      next hslash =>
        obtain ⟨piece, pieces, hpieces⟩ := List.exists_cons_of_ne_nil (List.splitOnP_ne_nil (· == '/') s)
        rw [hpieces, List.modifyHead_cons, List.cons_append, List.cons.injEq] at h
        obtain ⟨rfl, rfl⟩ := h
        obtain ⟨before, after, rfl, hbefore, hafter⟩ := ih (List.cons_ne_nil piece front) hpieces
        refine ⟨c :: before, after, rfl, ?_, hafter⟩
        rw [List.splitOnP_cons_eq_if_modifyHead, if_neg hslash, hbefore, List.modifyHead_cons]

/-- The parts before a slash and those behind it are the parts. -/
theorem parts_slash {path above : String} {rest : List Char} (h : path.toList = above.toList ++ '/' :: rest) :
    parts path = parts above ++ parts (String.ofList rest) := by
  rw [parts_eq, parts_eq, parts_eq, h, List.splitOnP_append_cons _ _ rfl, List.map_append,
    List.filter_append, String.toList_ofList]

/-- What has a part starts at the top or in the working directory as the path does that goes on from it. -/
theorem startsWith_slash {path above : String} {rest : List Char} (h : path.toList = above.toList ++ '/' :: rest)
    (hne : parts above ≠ []) : above.startsWith "/" = path.startsWith "/" := by
  have hchars : above.toList ≠ [] := by
    intro hnone
    refine hne ?_
    rw [parts_eq, hnone, List.splitOnP_nil]
    rfl
  obtain ⟨c, chars, hcons⟩ := List.exists_cons_of_ne_nil hchars
  rw [Bool.eq_iff_iff, String.startsWith_string_iff, String.startsWith_string_iff, h, hcons]
  simp [List.cons_prefix_cons]

end Path

/-! ## Files that are found by their paths -/

namespace FileTree

variable {tree : FileTree} {place : Path} {path : String}

/-- What stands above a path and the name of what stands there. -/
theorem slash_of_parent? {above : String} (h : parent? path = some above) :
    ∃ rest last, path.toList = above.toList ++ '/' :: rest ∧ Path.parts (String.ofList rest) = [last] := by
  unfold parent? at h
  split at h
  next last above' more hdrop =>
    obtain rfl := Option.some.inj h
    -- the pieces behind the last part say nothing
    obtain ⟨junk, hjunk, hpieces⟩ : ∃ junk : List String, (∀ part ∈ junk, part = "" ∨ part = ".") ∧
        path.splitOn "/" = (above' :: more).reverse ++ last :: junk := by
      refine ⟨((path.splitOn "/").reverse.takeWhile fun part => part = "" || part = ".").reverse, ?_, ?_⟩
      · intro part hpart
        simpa using List.mem_takeWhile_imp (List.mem_reverse.mp hpart)
      · refine List.reverse_injective ?_
        rw [List.reverse_append, List.reverse_cons, List.reverse_reverse, List.reverse_reverse,
          List.append_assoc, List.singleton_append, ← hdrop, List.takeWhile_append_dropWhile]
    have hlast : ¬ (last = "" ∨ last = ".") := by
      have := List.head?_dropWhile_not (fun part => part = "" || part = ".") (path.splitOn "/").reverse
      rw [hdrop] at this
      simpa using this
    rw [Path.splitOn_slash] at hpieces
    have hlists := congrArg (List.map String.toList) hpieces
    rw [List.map_map, show String.toList ∘ String.ofList = id from funext fun _ => String.toList_ofList,
      List.map_id, List.map_append] at hlists
    obtain ⟨before, after, hpath, hbefore, hafter⟩ := Path.split_between (by simp) (by simp) hlists
    have habove : (String.intercalate "/" (above' :: more).reverse).toList = before := by
      rw [String.toList_intercalate, ← hbefore]
      exact List.intercalate_splitOn '/'
    refine ⟨after, last, by rw [hpath, habove], ?_⟩
    rw [Path.parts_eq, String.toList_ofList, hafter, List.map_map,
      show String.ofList ∘ String.toList = id from funext fun _ => String.ofList_toList, List.map_id]
    have hnone : junk.filter (fun part => part ≠ "" && part ≠ ".") = [] := by
      rw [List.filter_eq_nil_iff]
      intro part hpart
      rcases hjunk part hpart with rfl | rfl <;> simp
    rw [List.filter_cons, hnone]
    simpa [not_or] using hlast
  next => simp at h

/-- What a walk has passed is a directory, and need not be made. -/
theorem makeBelow_of_walk {here : Path} {parts : List String} {last : String}
    (h : tree.walk here (parts ++ [last]) = .ok place) : tree.makeBelow here parts = .ok tree := by
  induction parts generalizing here with
  | nil => rfl
  | cons part parts ih =>
      rw [List.cons_append, walk] at h
      split at h
      next =>
        have hnext := h
        obtain ⟨next, rest, hrest⟩ := List.exists_cons_of_ne_nil (l := parts ++ [last]) (by simp)
        rw [hrest, walk] at hnext
        rw [makeBelow]
        split at hnext
        next hdirectory =>
          rw [hdirectory]
          exact ih h
        next => simp at hnext
        next => simp at hnext
      next => simp at h
      next => simp at h

/-- Opening a file that is there for appending changes nothing. -/
theorem openAppendIn_of_resolve {content : Bytes} (h : tree.resolve path = .ok (place, some (.file content))) :
    tree.openAppendIn path = .ok (place, tree) := by
  have hopen : tree.openAppend path = .ok (place, tree) := by rw [openAppend, h]
  unfold openAppendIn
  split
  next => exact hopen
  next above habove =>
    obtain ⟨rest, last, hpath, hlast⟩ := slash_of_parent? habove
    have hmake : tree.makeDirectories above = .ok tree := by
      rw [makeDirectories]
      by_cases hnone : Path.parts above = []
      · rw [hnone]
        rfl
      · have hwalk := (resolve_ok h).2.1
        rw [Path.parts_slash hpath, hlast, origin, ← Path.startsWith_slash hpath hnone] at hwalk
        exact makeBelow_of_walk hwalk
    rw [hmake]
    exact hopen

theorem resolve_of_read {content : Bytes} (h : tree.read path = .ok content) :
    ∃ place, tree.resolve path = .ok (place, some (.file content)) := by
  unfold read at h
  split at h
  next => simp at h
  next place found hresolve =>
    obtain rfl := Except.ok.inj h
    exact ⟨place, hresolve⟩
  next => simp at h
  next => simp at h

theorem file?_of_kind? {content : Bytes} (h : tree.kind? place = some (.file content)) :
    tree.file? place = some content := by
  unfold kind? at h
  split at h
  next hfile => cases h; exact hfile
  next => split at h <;> simp at h

/-- In a well-formed tree a file is all that stands at or below its place. -/
theorem segmentsBelow_file (hfiles : tree.WellFormed) {content : Bytes} (h : tree.file? place = some content) :
    segmentsBelow tree place "" = [([], content)] := by
  refine List.perm_singleton.mp ((List.perm_ext_iff_of_nodup (nodup_segmentsBelow hfiles)
    (List.nodup_singleton _)).mpr fun segment => ?_)
  have hmem := (file?_eq_some hfiles.distinct).mp h
  rw [mem_segmentsBelow, List.mem_singleton]
  constructor
  · rintro ⟨hsegment, -⟩
    have hpath : place ++ segment.1 = place := by
      by_contra hne
      have := hfiles.above _ hsegment place (List.prefix_append _ _) fun h => hne h.symm
      rw [kind?, h] at this
      simp at this
    have hnil : segment.1 = [] := List.append_right_eq_self.mp hpath
    rw [hnil, List.append_nil] at hsegment
    have hcontent := (file?_eq_some hfiles.distinct).mpr hsegment
    exact Prod.ext hnil (Option.some.inj (hcontent.symm.trans h))
  · rintro rfl
    exact ⟨by rwa [List.append_nil], rfl⟩

end FileTree

/-! ## Shards that are found by their paths -/

namespace FileTree

variable {tree tree' : FileTree} {place place' : Path} {path : String} {content : Bytes}

/-- Where a walk leads does not depend on what stands there. -/
theorem walk_unique {here : Path} {parts : List String} (h : tree.walk here parts = .ok place)
    (h' : tree'.walk here parts = .ok place') : place = place' := by
  induction parts generalizing here with
  | nil => exact Except.ok.inj (h.symm.trans h')
  | cons part parts ih =>
      rw [walk] at h h'
      split at h <;> split at h' <;> first | exact ih h h' | simp at h h'

/-- The files of one tree are files of the other, with the same content. -/
structure Keeps (tree tree' : FileTree) : Prop where
  here : tree'.here = tree.here
  files : ∀ path content, tree.file? path = some content → tree'.file? path = some content

theorem Keeps.openAppend (h : Keeps tree tree') {tree'' : FileTree}
    (hopen : tree'.openAppend path = .ok (place, tree'')) :
    Keeps tree tree'' ∧ (tree.read path = .ok content → tree''.file? place = some content) := by
  obtain ⟨hkept, hwalk⟩ : Keeps tree tree'' ∧ tree'.walk (tree'.origin path) (Path.parts path) = .ok place := by
    unfold FileTree.openAppend at hopen
    split at hopen
    next => simp at hopen
    next => simp at hopen
    next place' old hresolve =>
      obtain ⟨rfl, rfl⟩ := Prod.mk.inj (Except.ok.inj hopen)
      exact ⟨h, (resolve_ok hresolve).2.1⟩
    next place' hresolve =>
      split at hopen
      next => simp at hopen
      next =>
        obtain ⟨rfl, rfl⟩ := Prod.mk.inj (Except.ok.inj hopen)
        obtain ⟨-, hwalk, hkind⟩ := resolve_ok hresolve
        refine ⟨⟨h.here, fun path old hold => ?_⟩, hwalk⟩
        rw [file?_write, if_neg, h.files path old hold]
        rintro rfl
        rw [kind?, h.files _ _ hold] at hkind
        simp at hkind
  refine ⟨hkept, fun hread => ?_⟩
  obtain ⟨place', hresolve⟩ := resolve_of_read hread
  obtain ⟨-, hwalk', hkind⟩ := resolve_ok hresolve
  have horigin : tree'.origin path = tree.origin path := by
    rw [origin, origin, h.here]
  rw [horigin] at hwalk
  obtain rfl := walk_unique hwalk hwalk'
  exact hkept.files _ _ (file?_of_kind? hkind)

end FileTree

namespace FileStream

variable {options : StreamOptions} {root stream directory : String} {files files₁ tree tree' : FileTree}
  {content : Bytes}

theorem content_openShards (hkeeps : FileTree.Keeps files tree) {ns : List Nat} {shards : List FileShard}
    (h : openShards options directory tree ns = (.ok shards, tree')) :
    ∀ shard ∈ shards, files.read shard.path = .ok content → shard.writer.file.content = content := by
  induction ns generalizing tree shards with
  | nil =>
      obtain rfl : [] = shards := Except.ok.inj (Prod.mk.inj h).1
      simp
  | cons n ns ih =>
      simp only [openShards] at h
      split at h
      next => simp at h
      next place tree₁ hopen =>
        split at h
        next => simp at h
        next others tree₂ hrest =>
          obtain ⟨hshards, rfl⟩ := Prod.mk.inj h
          obtain rfl := Except.ok.inj hshards
          obtain ⟨hkeeps', hfound⟩ := hkeeps.openAppend hopen
          rw [List.forall_mem_cons]
          refine ⟨fun hread => ?_, ih hkeeps' hrest⟩
          rw [hfound hread, Option.getD_some]

/-- A stream is opened with the shards as they are. -/
theorem ofRoot_eq_ok {sink : FileStream} (h : ofRoot options root stream files = (.ok sink, files₁)) :
    0 < options.maxAggregate ∧
    ∀ shard ∈ sink.shards, ∀ content, files.read shard.path = .ok content →
      shard.writer.file.content = content := by
  unfold ofRoot at h
  split at h
  next => simp at h
  next =>
    split at h
    next => simp at h
    next hmax =>
      refine ⟨Nat.pos_of_ne_zero hmax, ?_⟩
      dsimp only at h
      split at h
      next => simp at h
      next grown hmake =>
        have hgrows := FileTree.grows_makeBelow hmake
        have hkeeps : FileTree.Keeps files grown :=
          ⟨hgrows.here, fun path old hold => by rw [FileTree.file?, hgrows.files]; exact hold⟩
        split at h
        next => simp at h
        next shards tree hopen =>
          obtain rfl := Except.ok.inj (Prod.mk.inj h).1
          exact fun shard hmem content => content_openShards hkeeps hopen shard hmem

end FileStream

end EventReplay
