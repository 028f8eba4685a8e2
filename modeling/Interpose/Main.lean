import Interpose.Command
import Interpose.Module.Container

/-!
# The program

Reads the module in a file, weaves it and writes the result.
-/

namespace Interpose

/-- Weaves the module in a file; the result is written only when all else has succeeded. -/
def weaveOnDisk (c : Command) : IO (Except String Report) := do
  let log (text : String) : IO Unit := if c.verbose then IO.eprintln text else pure ()
  try
    log ("Reading module '" ++ c.input ++ "'")
    let content ← IO.FS.readBinFile c.input
    let woven : Except Error (PassSummary × Bytes) := do
      match (weavePass c.policy).run (← Module.decode content.toList) with
      | (.ok summary, m) => return (summary, ← m.encode)
      | (.error error, _) => throw error
    match woven with
    | .error error => return .error error.message
    | .ok (summary, bytes) =>
      log ("Writing module '" ++ c.output ++ "'")
      IO.FS.writeBinFile c.output ⟨bytes.toArray⟩
      return .ok { input := c.input, output := c.output, summary }
  catch problem => return .error (toString problem)

/-- Does and prints what is asked for.  The exit code is 2 for a command line that makes no sense,
and 1 if weaving fails. -/
def answer (words : List String) : IO UInt32 := do
  match Request.ofWords words with
  | .ok .help =>
    IO.println helpText
    return 0
  | .ok .version =>
    IO.println "interpose 0.1.0"
    return 0
  | .ok (.weave command) =>
    match ← weaveOnDisk command with
    | .ok report =>
      IO.println (if command.json then report.json else report.line)
      return 0
    | .error reason =>
      IO.eprintln ("Error: failed to rewrite '" ++ command.input ++ "'\n\nCaused by:\n    " ++
        reason)
      return 1
  | .error problem =>
    IO.eprintln ("error: " ++ problem.message ++ "\n\n" ++ usageLine ++
      "\n\nFor more information, try '--help'.")
    return 2

end Interpose

/-- Answers the words of the command line. -/
def main (words : List String) : IO UInt32 := Interpose.answer words
