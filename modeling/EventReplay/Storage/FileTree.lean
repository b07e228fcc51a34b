import EventReplay.Text.Bytes

/-!
# Files and directories

A tree of files, with the operations that a replay needs: reading, making directories, opening a file
for appending, removing, and finding every file below a directory. Paths are texts as users write
them; a path is looked up one part at a time from the top (`FileTree.resolve`), as an operating system
does, and fails for the same causes.
-/

set_option autoImplicit false

namespace EventReplay

/-- Why a file operation fails. -/
inductive FileFault where
  | missing
  | occupied
  | notDirectory
  | isDirectory
  | noSpace
  /-- The device knows no such request. -/
  | unsupported
  /-- What was read as text is not UTF-8. -/
  | notText
  /-- Any other cause, in the system's words. -/
  | other (words : String)
deriving DecidableEq, Repr

/-- The cause in the system's words. -/
def FileFault.message : FileFault → String
  | missing => "No such file or directory (os error 2)"
  | occupied => "File exists (os error 17)"
  | notDirectory => "Not a directory (os error 20)"
  | isDirectory => "Is a directory (os error 21)"
  | noSpace => "No space left on device (os error 28)"
  | unsupported => "Invalid argument (os error 22)"
  | notText => "stream did not contain valid UTF-8"
  | other words => words

/-- The names on the way from the top to a file or directory. -/
abbrev Path := List String

namespace Path

/-- The path of a name inside a directory, both as written. A name that starts at the top stands alone. -/
def join (directory name : String) : String :=
  if directory.isEmpty || name.startsWith "/" then name
  else if directory.endsWith "/" then directory ++ name
  else directory ++ "/" ++ name

/-- The parts that a written path is made of; single dots and doubled slashes say nothing. -/
def parts (path : String) : List String :=
  (path.splitOn "/").filter fun part => part ≠ "" && part ≠ "."

/-- Whether a written path can only name a directory. -/
def namesDirectory (path : String) : Bool := path.endsWith "/" || path.endsWith "/."

/-- The path as it is shown: its parts with single slashes between them. -/
def text (path : Path) : String := String.intercalate "/" path

end Path

/-- Files with their content, and directories other than the top. -/
structure FileTree where
  files : List (Path × Bytes) := []
  directories : List Path := []
  /-- The working directory. -/
  here : Path := []

namespace FileTree

/-- What stands at a path. -/
inductive Kind where
  | file (content : Bytes)
  | directory

/-- The content of a file. -/
def file? (tree : FileTree) (path : Path) : Option Bytes :=
  (tree.files.find? fun f => f.1 = path).map Prod.snd

/-- What stands at a path, if anything does. -/
def kind? (tree : FileTree) (path : Path) : Option Kind :=
  match tree.file? path with
  | some content => some (.file content)
  | none => if path = [] ∨ path ∈ tree.directories then some .directory else none

/-- Follows parts of a path down from a directory. All but the last part must name directories; the
last may name nothing. -/
def walk (tree : FileTree) (here : Path) : List String → Except FileFault Path
  | [] => .ok here
  | part :: parts =>
    match tree.kind? here with
    | some .directory => walk tree (if part = ".." then here.dropLast else here ++ [part]) parts
    | some (.file _) => .error .notDirectory
    | none => .error .missing

/-- Where a written path starts: at the top after a slash, otherwise in the working directory. -/
def origin (tree : FileTree) (path : String) : Path :=
  if path.startsWith "/" then [] else tree.here

/-- The place that a written path leads to and what stands there. -/
def resolve (tree : FileTree) (path : String) : Except FileFault (Path × Option Kind) :=
  if path = "" then .error .missing
  else
    match tree.walk (tree.origin path) (Path.parts path) with
    | .error fault => .error fault
    | .ok place =>
      match tree.kind? place with
      | some (.file content) =>
        if Path.namesDirectory path then .error .notDirectory else .ok (place, some (.file content))
      | kind => .ok (place, kind)

/-- Sets the content of a file. -/
def write (tree : FileTree) (place : Path) (content : Bytes) : FileTree :=
  { tree with files := (place, content) :: tree.files.filter fun f => f.1 ≠ place }

/-- Adds a directory. -/
def addDirectory (tree : FileTree) (place : Path) : FileTree :=
  if place = [] ∨ place ∈ tree.directories then tree
  else { tree with directories := place :: tree.directories }

/-- The content of the file that a written path names. -/
def read (tree : FileTree) (path : String) : Except FileFault Bytes :=
  match tree.resolve path with
  | .error fault => .error fault
  | .ok (_, some (.file content)) => .ok content
  | .ok (_, some .directory) => .error .isDirectory
  | .ok (_, none) => .error .missing

/-- Makes the directories along some parts below a directory, those that are not there yet. A file in
the way is in the way as the last part, and no directory as an earlier one. -/
def makeBelow (tree : FileTree) (here : Path) : List String → Except FileFault FileTree
  | [] => .ok tree
  | part :: parts =>
    let place := if part = ".." then here.dropLast else here ++ [part]
    match tree.kind? place with
    | some (.file _) => .error (if parts = [] then .occupied else .notDirectory)
    | some .directory => makeBelow tree place parts
    | none => makeBelow (tree.addDirectory place) place parts

/-- Makes the directory that a written path names and those above it. -/
def makeDirectories (tree : FileTree) (path : String) : Except FileFault FileTree :=
  tree.makeBelow (tree.origin path) (Path.parts path)

/-- Opens a file for appending: its place, and the tree with the file in it. -/
def openAppend (tree : FileTree) (path : String) : Except FileFault (Path × FileTree) :=
  match tree.resolve path with
  | .error fault => .error fault
  | .ok (_, some .directory) => .error .isDirectory
  | .ok (place, some (.file _)) => .ok (place, tree)
  | .ok (place, none) =>
    if Path.namesDirectory path then .error .isDirectory
    else .ok (place, tree.write place [])

/-- The written path without its last part, if something stands before it. -/
def parent? (path : String) : Option String :=
  match (path.splitOn "/").reverse.dropWhile (fun part => part = "" || part = ".") with
  | _ :: above :: more => some (String.intercalate "/" (above :: more).reverse)
  | _ => none

/-- Opens a file for appending and makes the directories above it. -/
def openAppendIn (tree : FileTree) (path : String) : Except FileFault (Path × FileTree) :=
  match parent? path with
  | none => tree.openAppend path
  | some above =>
    match tree.makeDirectories above with
    | .error fault => .error fault
    | .ok tree => tree.openAppend path

/-- Sets the content of a file that is still there. -/
def update (tree : FileTree) (place : Path) (content : Bytes) : FileTree :=
  match tree.file? place with
  | some _ => tree.write place content
  | none => tree

/-- Removes a file. -/
def remove (tree : FileTree) (path : String) : Except FileFault FileTree :=
  match tree.resolve path with
  | .error fault => .error fault
  | .ok (_, none) => .error .missing
  | .ok (_, some .directory) => .error .isDirectory
  | .ok (place, some (.file _)) =>
    .ok { tree with files := tree.files.filter fun f => f.1 ≠ place }

/-- The files at or below what a written path names, each by the names that lead down to it. -/
def filesBelow (tree : FileTree) (path : String) : Except FileFault (List Path) :=
  match tree.resolve path with
  | .error fault => .error fault
  | .ok (_, none) => .error .missing
  | .ok (place, some _) =>
    .ok <| tree.files.filterMap fun f =>
      if place.isPrefixOf f.1 then some (f.1.drop place.length) else none

/-- The tree of given files, with the directories above them. -/
def ofFiles (files : List (String × Option Bytes)) : FileTree :=
  files.foldl (fun tree f =>
    match f.2 with
    | none => (tree.makeDirectories f.1).toOption.getD tree
    | some content =>
      match tree.openAppendIn f.1 with
      | .ok (place, tree) => tree.write place content
      | .error _ => tree) {}

end FileTree

end EventReplay
