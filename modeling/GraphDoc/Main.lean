import GraphDoc.Tool.Run
/-! # The `vlx` command

Reads the command line, runs it against the real file system and standard input, and passes
on the outcome: standard output, standard error and the exit status. -/
namespace GraphDoc

namespace Tool

/-- The system's description of a failed file access, in the usual form of a message and an
error number. -/
def describe (e : IO.Error) : String :=
  let known (code : UInt32) (text : String) : String := text ++ " (os error " ++ toString code ++ ")"
  match e with
  | .noFileOrDirectory _ code _ => known code "No such file or directory"
  | .permissionDenied _ code _ => known code "Permission denied"
  | .alreadyExists _ code _ => known code "File exists"
  | .inappropriateType _ code _ =>
    if code == 21 then known code "Is a directory"
    else if code == 20 then known code "Not a directory"
    else toString e
  | _ => toString e

/-- Files and standard input of the running system. -/
def systemHost : Host IO where
  getFile path := do
    try
      return .ok (← IO.FS.readBinFile path)
    catch e =>
      return .error (describe e)
  putFile path bytes := do
    try
      IO.FS.writeBinFile path bytes
      return .ok ()
    catch e =>
      return .error (describe e)
  getInput := do (← IO.getStdin).readBinToEnd

end Tool

end GraphDoc

open GraphDoc Tool in
/-- Run the tool on the command line. -/
def main (args : List String) : IO UInt32 := do
  let o ← (Invocation.ofArgs args).execute systemHost
  let out ← IO.getStdout
  out.write o.stdout
  out.flush
  let err ← IO.getStderr
  err.putStr o.stderr
  err.flush
  return o.code.toUInt32
