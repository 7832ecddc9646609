/-
The arguments of the command line.

There is one file and two flags, in any order.  An argument that starts with two dashes
and is no flag is refused, and so is a second file.

* `Options.ofArguments?` reads the arguments.
* `Path.fileName` is the name under which a file is reported.
-/

namespace FrontEnd

namespace Path

/-- The names on a path; a dot says nothing, except at the start. -/
def components (path : String) : List String :=
  match path.splitOn "/" with
  | [] => []
  | first :: rest => first :: rest.filter (fun name => name ≠ "." && name ≠ "")

/-- The last name on a path.  A path that ends in none, because it is empty, the root, a
dot or two dots, is its own name. -/
def fileName (path : String) : String :=
  match (components path).getLast? with
  | none | some "" | some "." | some ".." => path
  | some name => name

end Path

/-- What the command line asks for. -/
structure Options where
  path : String
  dumpTokens : Bool := false
  dumpTree : Bool := false
deriving DecidableEq, Repr

namespace Options

/-- The shown description of the arguments. -/
def usage : String := "usage: zeus <file> [--tokens] [--tree]\n"

/-- What has been read of the arguments. -/
structure Draft where
  path : Option String := none
  dumpTokens : Bool := false
  dumpTree : Bool := false
deriving DecidableEq, Repr

/-- Takes one more argument. -/
def Draft.add? (d : Draft) (argument : String) : Option Draft :=
  if argument = "--tokens" then some { d with dumpTokens := true }
  else if argument = "--tree" then some { d with dumpTree := true }
  else if "--".toList.isPrefixOf argument.toList then none
  else match d.path with
    | none => some { d with path := some argument }
    | some _ => none

/-- Reads all arguments. -/
def ofArguments? (arguments : List String) : Option Options := do
  let d ← arguments.foldlM Draft.add? {}
  let path ← d.path
  return { path, dumpTokens := d.dumpTokens, dumpTree := d.dumpTree }

end Options

end FrontEnd
