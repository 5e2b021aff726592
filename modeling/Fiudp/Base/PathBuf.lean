import Mathlib

/-!
# Unix paths and their extension

The session file is found by rewriting the text of the key path with
`PathBuf::set_extension`.  This module follows the standard library's rules for
the file name, the file stem and the extension of a path, on the path's text.
-/

namespace Fiudp

/-- A path, as the text it was given as. -/
structure PathBuf where
  inner : List Char
  deriving DecidableEq

namespace PathBuf

/-- Trailing separators and `.` components do not belong to the last component.
The argument is the reversed text of a path. -/
def stripTail : List Char → List Char
  | '/' :: rest => stripTail rest
  | '.' :: '/' :: rest => stripTail rest
  | ['.'] => []
  | text => text

/-- The reversed text of the path up to the end of its last component. -/
def lastComponentRev (path : PathBuf) : List Char :=
  stripTail path.inner.reverse

/-- `Path::file_name`: the last component, unless there is none or it is `..`. -/
def fileName (path : PathBuf) : Option (List Char) :=
  let name := (path.lastComponentRev.takeWhile (· ≠ '/')).reverse
  if name = [] ∨ name = ['.', '.'] then none else some name

/-- `Path::file_stem` of a file name: what stands before its last dot; the whole
name when there is no dot, or only a leading one. -/
def fileStem (name : List Char) : List Char :=
  let before := ((name.reverse.dropWhile (· ≠ '.')).drop 1).reverse
  if before = [] then name else before

/-- `PathBuf::set_extension`: truncate right after the file stem, then append the
extension.  A path without a file name is left as it is. -/
def setExtension (path : PathBuf) (extension : List Char) : PathBuf :=
  match path.fileName with
  | none => path
  | some name =>
      let kept := (path.lastComponentRev.drop (name.length - (fileStem name).length)).reverse
      if extension = [] then ⟨kept⟩ else ⟨kept ++ '.' :: extension⟩

/-- `Path::display`, for a path that is valid Unicode; what it replaces in others is not
modelled. -/
def display (path : PathBuf) : String :=
  String.ofList path.inner

theorem setExtension_of_fileName_none {path : PathBuf} (hname : path.fileName = none)
    (extension : List Char) : path.setExtension extension = path := by
  simp [setExtension, hname]

example : setExtension ⟨"./psk.bin".toList⟩ "session_id".toList =
    ⟨"./psk.session_id".toList⟩ := by decide

example : setExtension ⟨"keys/.psk/.".toList⟩ "session_id".toList =
    ⟨"keys/.psk.session_id".toList⟩ := by decide

example : setExtension ⟨"keys/..".toList⟩ "session_id".toList = ⟨"keys/..".toList⟩ := by
  decide

end PathBuf

end Fiudp
