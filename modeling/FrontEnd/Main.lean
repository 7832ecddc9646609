/-
The command line.

It reads one file, prints the report on it stage by stage, and ends with a failure if the
file cannot be read or something is wrong with it.
-/
import FrontEnd.Cli.Duration
import FrontEnd.Cli.Report

namespace FrontEnd

/-- Why a file could not be read, in the words of the system. -/
def readReason : IO.Error → String
  | .noFileOrDirectory .. => ReadFailure.notFound.message
  | .inappropriateType _ code _ =>
    if code = 21 then ReadFailure.isADirectory.message else ReadFailure.notADirectory.message
  | .permissionDenied .. => "Permission denied (os error 13)"
  | .otherError code details => s!"{details} (os error {code})"
  | error => toString error

/-- Prints the report on a source text, each part as soon as it is known. -/
def printReport (options : Options) (source : String) : IO UInt32 := do
  let out ← IO.getStdout
  let start ← IO.monoNanosNow
  let lexed := tokenize source
  let tokenized ← IO.monoNanosNow
  out.putStr (Report.tokenPart options (Duration.text (tokenized - start)) lexed.stream)
  let parseStart ← IO.monoNanosNow
  let (file, syntactic) := parseTokens lexed.stream
  let parsed ← IO.monoNanosNow
  out.putStr (Report.treePart options (Duration.text (parsed - parseStart)) file)
  let diagnostics := (({} : Diagnostics).extend lexed.diagnostics).extend syntactic
  if diagnostics.isEmpty then
    let done ← IO.monoNanosNow
    out.putStr (Report.successPart (Duration.text (done - start)))
    return 0
  else
    out.putStr (Report.failurePart diagnostics source (Path.fileName options.path))
    return 1

end FrontEnd

open FrontEnd

/-- Runs the command line. -/
def main (arguments : List String) : IO UInt32 := do
  let err ← IO.getStderr
  match Options.ofArguments? arguments with
  | none =>
    err.putStr Options.usage
    return 1
  | some options =>
    match ← (IO.FS.readBinFile options.path).toBaseIO with
    | .error error =>
      err.putStr (Report.unreadable options.path (readReason error))
      return 1
    | .ok bytes =>
      match String.fromUTF8? bytes with
      | none =>
        err.putStr (Report.unreadable options.path ReadFailure.notText.message)
        return 1
      | some source => printReport options source
