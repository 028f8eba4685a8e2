import Interpose.FileSystem
import Interpose.Module.Container
import Interpose.Weaving.Pass

/-!
# Batches

A batch weaves the modules in several files, one after the other, and stops at the first that fails.

## Main definitions

* `Access` — computations that change files and may fail
* `Access.readModule`, `Access.writeModule` — modules in files
* `weaveContainer` — weaves the module in one file
* `Batch`, `Batch.run` — several files, and weaving all of them
-/

namespace Interpose

/-- A computation that changes files; changes made before it fails stay. -/
abbrev Access := ExceptT Error (StateM FileSystem)

namespace Access

/-- The content of a file. -/
def readBytes (path : String) : Access (List UInt8) := do
  match (← get).read path with
  | .ok content => return content
  | .error problem => throw (.file problem)

/-- Writes a file. -/
def writeBytes (path : String) (content : List UInt8) : Access Unit := do
  match (← get).write path content with
  | .ok fs => set fs
  | .error problem => throw (.file problem)

/-- The module in a file. -/
def readModule (path : String) : Access Module := do
  return ← Module.decode (← readBytes path)

/-- Writes a module to a file. -/
def writeModule (path : String) (m : Module) : Access Unit := do
  writeBytes path (← m.encode)

end Access

/-- A module after one pass, and what the pass did. -/
def woven (o : WeavePolicy) (m : Module) : Except Error (PassSummary × Module) :=
  match (weavePass o).run m with
  | (.ok summary, m) => .ok (summary, m)
  | (.error error, _) => .error error

/-- Weaves the module in one file and writes it to another, or to the same. -/
def weaveContainer (o : WeavePolicy) (input output : String) : Access PassSummary := do
  let m ← Access.readModule input
  let (summary, m) ← woven o m
  Access.writeModule output m
  return summary

/-- A file to be woven. -/
structure BatchTarget where
  input : String
  /-- The file to write; without one the batch decides. -/
  output : Option String := none
deriving DecidableEq, Repr, Inhabited

/-- Files to be woven. -/
structure Batch where
  targets : List BatchTarget
  /-- The directory for the files that are written; without one they replace those that are read. -/
  outputDirectory : Option String := none
  options : WeavePolicy := {}
deriving Repr, Inhabited

namespace Batch

/-- The file that is written for a target. -/
def outputOf (b : Batch) (target : BatchTarget) : String :=
  match target.output with
  | some output => output
  | none =>
    match b.outputDirectory, Path.fileName? target.input with
    | some directory, some name => Path.join directory name
    | _, _ => target.input

/-- Weaves the file of one target. -/
def runTarget (b : Batch) (target : BatchTarget) : Access (String × PassSummary) := do
  let output := b.outputOf target
  return (output, ← weaveContainer b.options target.input output)

/-- Weaves all files, up to the first that fails. -/
def run (b : Batch) : Access (List (String × PassSummary)) := b.targets.mapM b.runTarget

end Batch

end Interpose
