import StepQuery.Command.Run

/-!
The command line: the machine as the tasks see it, and the printing of what they did.
-/

namespace StepQuery

/-- What a path leads to on this machine. -/
def machineEntry (path : String) : IO Entry := do
  try
    return .file (← IO.FS.readFile path).toList
  catch problem =>
    match problem with
    | .noFileOrDirectory .. => return .missing
    | _ => return .unreadable

def machine : IO (Surroundings IO) := do
  let directory ← IO.currentDir
  return ⟨directory.toString, machineEntry, fun name => IO.getEnv name⟩

/-- Print what a task wrote and said, and whether it failed. -/
def report (result : Attempt Unit) (transcript : Transcript) : IO UInt32 := do
  for output in transcript.output do
    IO.println output.text
  for status in transcript.status do
    IO.eprintln status
  match result with
  | .ok () => return 0
  | .error failure =>
    IO.eprintln ("command failed: " ++ failure.message)
    return 1

end StepQuery

open StepQuery in
def main (arguments : List String) : IO UInt32 := do
  let surroundings ← machine
  match Invocation.ofWords? surroundings.directory arguments with
  | none =>
    IO.eprintln "usage: pipequery <compile|dereference|human|tree|version> [flags] [file]"
    return 80
  | some invocation =>
    let (result, transcript) ← (invocation.run surroundings).run.run ⟨[], [], []⟩
    report result transcript
