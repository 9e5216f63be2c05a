import ScriptBase.LineStat
import ScriptBase.Platform.Reference

/-!
# The command line

Runs the line statistics on a real file, on the reference platform. Here the environment and what
stands along the path are looked up, and at the end the texts of the host are written out;
everything between is done by `ScriptBase.LineStat.run`.
-/

namespace ScriptBase.CommandLine

open scoped ScriptBase.ReferencePlatform

/-- What stands at a path, if anything does. -/
def nodeAt? (path : String) : IO (Option Node) := do
  let place := System.mkFilePath [path]
  if ← place.isDir then
    return some .directory
  else if ← place.pathExists then
    return some (.file (← IO.FS.readBinFile place).toList)
  else
    return none

/-- A disk with what stands along a path. -/
def diskAlong (path : String) : IO Disk := do
  let names := path.splitOn "/"
  let mut disk := Disk.fresh
  for k in List.range names.length do
    let start := "/".intercalate (names.take (k + 1))
    if let some node ← nodeAt? start then
      disk := disk.place start node
  return disk

/-- The variables of the environment. -/
def environment : IO Environment := do
  let debug ← IO.getEnv "PYSHIM_RT_DEBUG"
  let bufferSize ← IO.getEnv "PYSHIM_IO_BUFFER_SIZE"
  return ⟨debug.map Text.ofString, bufferSize.map Text.ofString⟩

/-- Runs the tool with its arguments. -/
def run (args : List String) : IO UInt32 := do
  let disk ← match args with
    | [path] => diskAlong path
    | _ => pure Disk.fresh
  let (code, host) := LineStat.run (args.map Text.ofString) (.start (← environment) disk none)
  (← IO.getStdout).write ⟨host.output.received.toArray⟩
  (← IO.getStderr).write ⟨host.diagnostics.toArray⟩
  return code.toUInt32

end ScriptBase.CommandLine

def main (args : List String) : IO UInt32 := ScriptBase.CommandLine.run args
