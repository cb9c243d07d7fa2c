import FrontEnd.CommandLine.Program

/-!
# The executable

Runs the command on the file system and in the environment of the process. Everything it shows and
every file it touches is decided by `CommandLine.run`.
-/

namespace FrontEnd.Executable

/-- Performs a request, and says whether that worked. -/
def succeeds (request : IO Unit) : IO Bool := do
  try
    request
    return true
  catch _ => return false

/-- Copies a file. The target is emptied before the source is read. -/
def copyFile (source target : String) : IO Unit := do
  let input ← IO.FS.Handle.mk source .read
  let output ← IO.FS.Handle.mk target .write
  output.write (← input.readBinToEnd)

/-- Whether a path leads to a file that is no directory. -/
def isFile (path : String) : IO Bool := do
  let place := (← IO.currentDir) / path
  return (← place.pathExists) && !(← place.isDir)

/-- The file system of the process. -/
instance : FileAccess IO where
  pathExists path := return ← ((← IO.currentDir) / path).pathExists
  isFile := isFile
  read path := do
    try return some (← IO.FS.readBinFile path)
    catch _ => return none
  write path content := succeeds (IO.FS.writeBinFile path content)
  makeDirectories path :=
    if path.isEmpty then return true else succeeds (IO.FS.createDirAll path)
  copy source target := do
    if ← isFile source then succeeds (copyFile source target) else return false

/-- The variables of the process that the command looks at. -/
def environment : IO Environment := do
  let names := Locale.variableNames ++ CommandLine.Parameter.all.filterMap (·.environmentName?) ++
    [Terminal.colorOff, Terminal.colorOn]
  let values ← names.filterMapM fun name => do
    return (← IO.getEnv name).map fun value => (name, value)
  return fun name => values.lookup name

end FrontEnd.Executable

/-- Runs the command with the arguments of the process. -/
def main (args : List String) : IO UInt32 := do
  let exe := (← IO.appPath).toString
  let report ← FrontEnd.CommandLine.run exe (← FrontEnd.Executable.environment) args
  IO.print report.output
  IO.eprint report.errors
  return report.exitCode.toUInt32
