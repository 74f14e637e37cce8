import SessionGrid.CommandLine.Program

/-!
The program on the files of the system.
-/

namespace SessionGrid.CommandLine

/-- The failure that the system names. Its number can have either sign: 20 says that a path leads
through something that is no directory, 36 that a name is too long. -/
def fileError : IO.Error → FileError
  | .noFileOrDirectory .. => .missing
  | .inappropriateType _ code _ =>
    if code = 20 ∨ code = 0 - 20 then .notADirectory else .isADirectory
  | .invalidArgument file code details =>
    if code = 36 ∨ code = 0 - 36 then .nameTooLong
    else .other (toString (IO.Error.invalidArgument file code details))
  | e => .other (toString e)

def attempt {α : Type} (action : IO α) : IO (Except FileError α) := do
  try return .ok (← action) catch e => return .error (fileError e)

def systemFiles : FileAccess IO where
  read path := attempt (IO.FS.readBinFile path)
  holds path := do
    match ← attempt (IO.FS.Handle.mk path .read) with
    | .error .missing => return false
    | .error .notADirectory => return false
    | .error .nameTooLong => return false
    | _ => return true
  write path content := attempt (IO.FS.writeBinFile path content)

end SessionGrid.CommandLine

open SessionGrid.CommandLine in
def main (args : List String) : IO UInt32 := do
  let output ← run systemFiles args
  IO.print output.stdout
  IO.eprint output.stderr
  return output.exit
