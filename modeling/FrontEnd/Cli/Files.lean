/-
A directory in memory, and reading a text file in it by a path.

A path is followed name by name from the directory.  Nothing is known of what lies above
it, except that these are directories.

* `FileTree.read` gives the text of a file, or says why it cannot be read.
-/
import FrontEnd.Cli.Options

namespace FrontEnd

/-- Why a file cannot be read. -/
inductive ReadFailure where
  | notFound
  | notADirectory
  | isADirectory
  | notText
deriving DecidableEq, Repr

/-- The reason, in the words of the system. -/
def ReadFailure.message : ReadFailure → String
  | notFound => "No such file or directory (os error 2)"
  | notADirectory => "Not a directory (os error 20)"
  | isADirectory => "Is a directory (os error 21)"
  | notText => "stream did not contain valid UTF-8"

/-- Files by the names on the way to them. -/
structure FileTree where
  files : List (List String × ByteArray)

namespace FileTree

/-- Files by their paths. -/
def ofPaths (files : List (String × ByteArray)) : FileTree :=
  ⟨files.map fun (path, bytes) =>
    ((path.splitOn "/").filter (fun name => name ≠ "." && name ≠ ""), bytes)⟩

/-- A place that a path can lead to. -/
inductive Place where
  /-- Outside of the tree. -/
  | above
  /-- A directory of the tree. -/
  | directory (names : List String)
  | file (bytes : ByteArray)

/-- The entry `name` of the directory `names`. -/
def entry (t : FileTree) (names : List String) (name : String) : Except ReadFailure Place :=
  let path := names ++ [name]
  match t.files.find? (·.1 == path) with
  | some (_, bytes) => .ok (.file bytes)
  | none =>
    if t.files.any (fun f => path.isPrefixOf f.1) then .ok (.directory path)
    else .error .notFound

/-- One step along a path. -/
def step (t : FileTree) (place : Place) (name : String) : Except ReadFailure Place :=
  match place with
  | .file _ => .error .notADirectory
  | .above => if name = "" ∨ name = "." ∨ name = ".." then .ok .above else .error .notFound
  | .directory names =>
    if name = "" ∨ name = "." then .ok place
    else if name = ".." then
      .ok (if names.isEmpty then .above else .directory names.dropLast)
    else t.entry names name

/-- Where a path leads. -/
def follow (t : FileTree) (path : String) : Except ReadFailure Place :=
  match path.splitOn "/" with
  | [] | [""] => .error .notFound
  | "" :: names => names.foldlM t.step .above
  | names => names.foldlM t.step (.directory [])

/-- The text of the file that a path leads to. -/
def read (t : FileTree) (path : String) : Except ReadFailure String := do
  match ← t.follow path with
  | .above | .directory _ => throw .isADirectory
  | .file bytes =>
    match String.fromUTF8? bytes with
    | some text => return text
    | none => throw .notText

end FileTree

end FrontEnd
