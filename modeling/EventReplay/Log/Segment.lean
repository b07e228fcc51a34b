import EventReplay.Storage.FileTree
import EventReplay.Text.Utf8

/-!
# Segments of an event log

The segments of a log are the files below a root whose path from there starts with some text, in the
order of the bytes of that path.
-/

set_option autoImplicit false

namespace EventReplay

/-- The written path of a file below a root. -/
def segmentPath (root : String) (names : Path) : String := names.foldl Path.join root

/-- Whether the path of a file starts with some text. -/
def startsWith (start : String) (names : Path) : Bool :=
  (Utf8.encode start).isPrefixOf (Utf8.encode names.text)

/-- The written paths of the segments of a log in the order in which they are read. -/
def listSegments (files : FileTree) (root start : String) : Except FileFault (List String) :=
  match files.filesBelow root with
  | .error fault => .error fault
  | .ok found =>
    .ok <| ((found.filter (startsWith start)).mergeSort fun a b =>
      Bytes.le (Utf8.encode a.text) (Utf8.encode b.text)).map (segmentPath root)

end EventReplay
