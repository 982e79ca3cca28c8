import SqlTree.CommandLine.Run

namespace SqlTree

/-- What stands under a path. -/
def readEntry (path : String) : IO FileEntry := do
  try
    return .file (← IO.FS.readBinFile path).toList
  catch
    | .noFileOrDirectory _ _ _ => return .missing
    | _ => return .directory

end SqlTree

open SqlTree in
/-- Fetches the texts that the arguments name, and prints what the invocation comes to. -/
def main (arguments : List String) : IO UInt32 := do
  let program := ((← IO.appPath).fileStem).getD ""
  let settings ← Invocation.settings.mapM fun option => do
    return (option, ← IO.getEnv (option.settingName program))
  let env := fun option => (settings.lookup option).join
  let text ←
    match (Invocation.read arguments env).toOption.bind Invocation.source? with
    | some (.file path) => do pure (Source.ofFile (← readEntry path))
    | some .standardInput => do pure (Source.ofBytes (← (← IO.getStdin).readBinToEnd).toList)
    | none => pure (.ok "")
  let result := runCommandLine arguments env ⟨fun _ => text, text⟩
  (← IO.getStdout).putStr result.output
  (← IO.getStderr).putStr result.errors
  return result.code.toUInt32
