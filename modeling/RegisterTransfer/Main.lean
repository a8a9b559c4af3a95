import RegisterTransfer.CommandLine.Execution
set_option autoImplicit false

/-!
# The program

The command line with the files of the disk.
-/

namespace RegisterTransfer

/-- Why an access to the disk failed. -/
def FileObstacle.ofError : IO.Error → FileObstacle
  | .noFileOrDirectory .. => .missing
  | .inappropriateType .. => .isDirectory
  | .resourceExhausted .. => .noSpace
  | e => .other (toString e)

/-- Access to the files of the disk. -/
def diskAccess : Files IO where
  read path := do
    try
      return .ok (← IO.FS.readBinFile path).data.toList
    catch e =>
      let obstacle := FileObstacle.ofError e
      return .error ⟨if obstacle = .missing then .opening else .reading, path, obstacle⟩
  write path text := do
    try
      IO.FS.withFile path .write fun h => do
        h.write ⟨text.toArray⟩
        h.flush
      return .ok ()
    catch e =>
      let obstacle := FileObstacle.ofError e
      return .error ⟨if obstacle = .noSpace then .writing else .opening, path, obstacle⟩

/-- Prints what an execution leaves. -/
def Report.show (verbose : Bool) (r : Report) : IO UInt32 := do
  IO.print r.stdout
  IO.eprint r.stderr
  for line in r.logs do
    IO.eprintln (if verbose then line.columns else line.json)
  return if r.failed then 1 else 0

end RegisterTransfer

open RegisterTransfer in
/-- Carries out the command line. -/
def main (args : List String) : IO UInt32 := do
  let report ← Execution.run diskAccess args
  let verbose := match Invocation.parse args with
    | .ok i => i.options.verbose
    | .error _ => false
  report.show verbose
