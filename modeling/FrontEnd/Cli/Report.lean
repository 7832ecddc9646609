/-
What the command line prints.

The output has a part for the tokens and a part for the tree, each after a line that says
how long the stage took, and ends with the total time or with the diagnostics.

* `Report.run` is the whole command line on a directory in memory.
* The parts are functions of their own, so that a program can print each as soon as its
  stage is done.
-/
import FrontEnd.Cli.Files
import FrontEnd.Diagnostic.Render
import FrontEnd.ParsedFile

namespace FrontEnd

/-- What a run of a program leaves behind. -/
structure Outcome where
  succeeded : Bool
  output : String := ""
  errors : String := ""
deriving DecidableEq, Repr

/-- How long the stages took, as it is shown. -/
structure Timings where
  tokenizing : String
  parsing : String
  total : String
deriving DecidableEq, Repr

namespace Report

/-- Puts an end to each line. -/
def unlines (lines : List String) : String := String.join (lines.map (· ++ "\n"))

/-- The tokens, and then the comments, one on each line. -/
def tokenDump (stream : TokenStream) : String :=
  unlines (stream.tokens.map Token.dump ++ stream.comments.map fun t =>
    s!"{t.span.start.line}:{t.span.start.column} {t.kind.name} {Text.quoted t.text}")

/-- The nodes of a tree, one on each line. -/
def treeDump (file : SourceFile) : String :=
  unlines ((file.toNode.preorder 0).map fun (depth, node) => node.line depth)

/-- The part about the tokens. -/
def tokenPart (options : Options) (elapsed : String) (stream : TokenStream) : String :=
  s!"Tokenized in {elapsed}\n" ++ if options.dumpTokens then tokenDump stream else ""

/-- The part about the tree. -/
def treePart (options : Options) (elapsed : String) (file : SourceFile) : String :=
  s!"Parsed in {elapsed}\n" ++ if options.dumpTree then treeDump file else ""

/-- The last part, if nothing is wrong. -/
def successPart (elapsed : String) : String := s!"Total time: {elapsed}\n"

/-- The last part, if something is wrong.  A diagnostic that cannot be shown with its line
is shown by its heading. -/
def failurePart (diagnostics : Diagnostics) (source fileName : String) : String :=
  String.join (diagnostics.sorted.map fun d =>
    (d.render? source fileName).getD (d.heading fileName)) ++
  s!"{diagnostics.size} error(s) in {fileName}\n"

/-- The line about a file that cannot be read. -/
def unreadable (path reason : String) : String := s!"Failed to read {path}: {reason}\n"

/-- The report on a source text. -/
def onSource (options : Options) (source : String) (times : Timings) : Outcome :=
  let lexed := tokenize source
  let (file, syntactic) := parseTokens lexed.stream
  let diagnostics := (({} : Diagnostics).extend lexed.diagnostics).extend syntactic
  let parts := tokenPart options times.tokenizing lexed.stream ++
    treePart options times.parsing file
  if diagnostics.isEmpty then
    { succeeded := true, output := parts ++ successPart times.total }
  else
    { succeeded := false
      output := parts ++ failurePart diagnostics source (Path.fileName options.path) }

/-- The command line with the given arguments in the given directory. -/
def run (files : FileTree) (arguments : List String) (times : Timings) : Outcome :=
  match Options.ofArguments? arguments with
  | none => { succeeded := false, errors := Options.usage }
  | some options =>
    match files.read options.path with
    | .error failure =>
      { succeeded := false, errors := unreadable options.path failure.message }
    | .ok source => onSource options source times

end Report

end FrontEnd
