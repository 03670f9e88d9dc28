import ContentFilter.CommandLine.Run

/-!
# The program

Reads the files that the command line names, carries the command out and prints the outcome.

In the engine: `main`.
-/

set_option autoImplicit false

namespace ContentFilter.CommandLine

/-- Why a path to something of the wrong kind cannot be read, by the error number of the system. -/
def wrongKind (code : UInt32) : ReadFailure := if code = 21 then .folder else .notFolder

/-- Read a file as UTF-8 text. -/
def readText (path : Text) : IO (Except ReadFailure Text) := do
  try
    let bytes ← IO.FS.readBinFile (String.ofList path)
    match String.fromUTF8? bytes with
    | some s => return .ok s.toList
    | none => return .error .notText
  catch
    | .noFileOrDirectory .. => return .error .notFound
    | .inappropriateType _ code _ => return .error (wrongKind code)
    | e => return .error (.other (toString e).toList)

/-- The files among those that were read. -/
def filesAmong (contents : List (Text × Except ReadFailure Text)) : Files := fun path =>
  ((contents.find? (·.1 == path)).map (·.2)).getD (.error .notFound)

end ContentFilter.CommandLine

open ContentFilter CommandLine in
/-- Exit code 2 stands for a command line at fault. -/
def main (args : List String) : IO UInt32 := do
  match Invocation.parse (args.map String.toList) with
  | none =>
    IO.eprintln "error: expected one of the commands validate, load, decide, scripts"
    return 2
  | some invocation =>
    let started ← IO.monoNanosNow
    let contents ← invocation.paths.mapM fun path => return (path, ← readText path)
    let untimed ← IO.lazyPure fun _ => invocation.run (filesAmong contents)
    let elapsed := (← IO.monoNanosNow) - started
    let outcome := if invocation.isTimed && untimed.failure.isNone
      then untimed.timed ((elapsed + 50000) / 100000) else untimed
    IO.print (String.ofList outcome.stdout)
    IO.eprint (String.ofList outcome.stderr)
    return UInt32.ofNat outcome.code
