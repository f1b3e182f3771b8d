import RegisterMachine.Command.Report

namespace RegisterMachine.Command

/-- What the host says about a file that it cannot read. -/
def hostFailure : IO.Error → HostFailure
  | .noFileOrDirectory .. => FileTree.notFound
  | .inappropriateType _ 21 _ => FileTree.isADirectory
  | .inappropriateType .. => FileTree.notADirectory
  | .invalidArgument .. => FileTree.nameTooLong
  | .permissionDenied .. => ⟨false, "Permission denied (os error 13)"⟩
  | error => ⟨false, error.toString⟩

/-- Reads a file of the host. -/
def readFile (path : String) : IO (Except HostFailure String) := do
  try
    return FileTree.decode (← IO.FS.readBinFile path)
  catch error =>
    return .error (hostFailure error)

end RegisterMachine.Command

open RegisterMachine.Command in
def main (arguments : List String) : IO UInt32 := do
  match Invocation.ofArguments arguments with
  | .error .version =>
    IO.print versionReport.out
    return 0
  | .error .usage =>
    IO.eprintln "usage: rammachine [-c PATH] [-q] [-v] (run FILE | check FILE | opcodes)"
    return 2
  | .ok invocation =>
    let texts ← invocation.paths.mapM fun path => return (path, ← readFile path)
    let report := invocation.report fun path =>
      (texts.lookup path).getD (.error RegisterMachine.FileTree.notFound)
    IO.print report.out
    IO.eprint report.err
    match report.exit with
    | some code => return code.toUInt32
    | none => throw (IO.userError "the run is not over")
