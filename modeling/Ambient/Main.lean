import Ambient.Command.Program

/-!
# The executable

The program on the files and streams of the system.
-/

namespace Ambient

/-- Opens what a path leads to, without changing it. -/
def opens (path : String) : IO Bool := do
  try
    let _ ← IO.FS.Handle.mk path .read
    return true
  catch
    | .noFileOrDirectory .. | .inappropriateType .. => return false
    | _ => return true

instance : Host IO IO.FS.Handle where
  read? path := do
    try
      return some (← IO.FS.readBinFile path)
    catch _ => return none
  pathExists := opens
  isDirectory path := opens (path ++ "/.")
  create? path := do
    try
      return some (← IO.FS.Handle.mk path .write)
    catch _ => return none
  write handle text := do
    handle.putStr text
    handle.flush
  print text := do
    let output ← IO.getStdout
    output.putStr text
    output.flush
  notify text := IO.eprintln text

end Ambient

def main (arguments : List String) : IO UInt32 := do
  let code : Ambient.Program.ExitCode ← Ambient.Program.run arguments
  return UInt32.ofNat code.toNat
