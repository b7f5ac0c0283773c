import Workflow.CommandLine

namespace Workflow

def attempt {α : Type} (act : IO α) : IO (Option α) := do
  try
    return some (← act)
  catch _ => return none

def machineFiles : Files IO where
  read path := attempt (IO.FS.readFile path)
  list folder := attempt do
    let entries ← ((← IO.currentDir) / folder).readDir
    let kept ← entries.toList.filterM fun entry => return !(← entry.path.isDir)
    return kept.map (·.fileName)
  makeFolder path := return (← attempt (IO.FS.createDirAll path)).isSome
  write path text := return (← attempt (IO.FS.writeFile path text)).isSome

end Workflow

def main (arguments : List String) : IO UInt32 := do
  let asStarted := Workflow.Schedule.asStarted
  let report ← Workflow.CommandLine.run Workflow.machineFiles asStarted asStarted arguments
  (← IO.getStdout).putStr report.output
  if let some complaint := report.complaint then
    (← IO.getStderr).putStrLn complaint
  return UInt32.ofNat report.status.code
