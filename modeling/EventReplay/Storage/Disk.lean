import EventReplay.Storage.FileTree

/-!
# Files that cannot always be read

A `Disk` is a tree of files at some time, with the faults that stand in the way of reading them then: a file
may refuse to be opened, and an open file may refuse to be read on at any of its lines and at its end.
-/

set_option autoImplicit false

namespace EventReplay

/-- Why a line cannot be read. -/
structure ReadFault where
  cause : FileFault
  /-- The bytes of the line that were read before the fault, and are gone. -/
  lost : Nat := 0
deriving DecidableEq, Repr

/-- The files as they are at some time, with what stands in the way of reading them. -/
structure Disk where
  files : FileTree
  /-- Why the file at a written path cannot be opened. -/
  openFault : String → Option FileFault := fun _ => none
  /-- Why an open file cannot be read on behind a number of lines, those before the fault. -/
  readFault : String → Nat → Option ReadFault := fun _ _ => none

/-- Files that nothing stands in the way of. -/
instance : Coe FileTree Disk := ⟨fun files => { files }⟩

/-- The content of a file that is opened. -/
def Disk.openFile (disk : Disk) (path : String) : Except FileFault Bytes :=
  match disk.openFault path with
  | some cause => .error cause
  | none => disk.files.read path

end EventReplay
