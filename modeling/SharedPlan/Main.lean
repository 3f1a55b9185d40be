import SharedPlan.CommandLine

/-!
# SharedPlan.Main

The program: files are read from the disk, and the outcome is written and returned.
-/

namespace SharedPlan

/-- Why reading from the disk failed.  A failure to open carries the number of the
operating system with its sign turned, a failure to read the number itself. -/
def diskFault : IO.Error → FileFault
  | .noFileOrDirectory .. => .notFound
  | .permissionDenied .. => .denied
  | .inappropriateType _ number _ =>
    if number = 21 ∨ number = 0 - 21 then .isDirectory else .notDirectory
  | .userError _ => .notText
  | .invalidArgument file number details =>
    if number = 36 ∨ number = 0 - 36 then .nameTooLong
    else .other (toString (IO.Error.invalidArgument file number details))
  | e => .other (toString e)

/-- Read a file from the disk. -/
def readFromDisk (path : String) : IO (Except FileFault String) := do
  try
    return .ok (← IO.FS.readFile path)
  catch e => return .error (diskFault e)

end SharedPlan

open SharedPlan in
/-- Run on the arguments of the command line. -/
def main (args : List String) : IO UInt32 := do
  let outcome ← CommandLine.run readFromDisk args
  IO.print outcome.stdout
  IO.eprint outcome.stderr
  return outcome.exitCode.toUInt32
