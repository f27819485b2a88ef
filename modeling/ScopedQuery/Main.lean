import ScopedQuery.CommandLine.Run

namespace ScopedQuery.CommandLine

/-!
# The program

The files of the real file system, and the entry point.
-/

/-- The fault that an error of the file system stands for. -/
def FileFault.ofError (e : IO.Error) : FileFault :=
  match e with
  | .noFileOrDirectory .. => notFound
  | .permissionDenied _ number reason => system number.toNat reason
  | .inappropriateType _ number reason => system number.toNat reason
  | .invalidArgument _ number reason => system number.toNat reason
  | .otherError number reason => system number.toNat reason
  | e => system 5 (toString e)

instance : FileStore IO where
  read name := do
    try
      return .ok (← IO.FS.readBinFile name)
    catch e =>
      return .error (.ofError e)
  write name content := do
    try
      IO.FS.writeBinFile name content
      return .ok ()
    catch e =>
      return .error (.ofError e)

end ScopedQuery.CommandLine

open ScopedQuery ScopedQuery.CommandLine in
/-- Runs the program with its arguments. -/
def main (arguments : List String) : IO UInt32 := do
  -- fewer scopes than the stack of a process bears, and fewer blanks than fill its memory
  let machine := Machine.ofLimits 500 0x10000000
  match ← (call machine .strict arguments : IO (Except Json.LayoutFault Report)) with
  | .ok report =>
    (← IO.getStdout).putStr report.stdout
    (← IO.getStderr).putStr report.stderr
    return report.code.toUInt32
  | .error fault =>
    (← IO.getStderr).putStr (fault.message ++ "\n")
    return 1
