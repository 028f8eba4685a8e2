import Interpose.Weaving.Method

/-!
# Weaving a module

A method is woven when scaffolds are put around its call sites.  One pass weaves all methods of a
module that may be woven and have not been yet, and remembers them.

## Main definitions

* `weavableMethods` — the methods that may be woven
* `PassSummary` — what a pass did
* `weavePass` — one pass
-/

namespace Interpose

/-- What a pass did. -/
structure PassSummary where
  /-- The number of methods that may be woven. -/
  visited : Nat := 0
  /-- The number of methods that were. -/
  woven : Nat := 0
  /-- The number of methods that an earlier pass was done with. -/
  skipped : Nat := 0
  /-- The number of instructions that are intercepted now. -/
  sites : Nat := 0
deriving DecidableEq, Repr, Inhabited

namespace PassSummary

/-- The summary with a method that an earlier pass was done with. -/
def skip (s : PassSummary) : PassSummary :=
  { s with visited := s.visited + 1, skipped := s.skipped + 1 }

/-- The summary with a method that has the given number of call sites. -/
def add (s : PassSummary) (sites : Nat) : PassSummary :=
  { s with
    visited := s.visited + 1
    woven := s.woven + if sites = 0 then 0 else 1
    sites := s.sites + sites }

end PassSummary

/-- The name of the type that stands for the module itself. -/
def moduleTypeName : String := "<Module>"

/-- Whether the methods of a type may be woven. -/
def WeavePolicy.includes (o : WeavePolicy) (owner : TypeDef) : Bool :=
  !owner.isInterface && owner.name ≠ moduleTypeName && !o.excludes owner.name

/-- Whether a method has code that may be woven. -/
def MethodDef.isWeavable (d : MethodDef) : Bool :=
  d.body.isSome && !d.flags.contains .isAbstract && d.name ≠ typeInitializerName

/-- The methods that may be woven. -/
def weavableMethods (m : Module) (o : WeavePolicy) : Except Error (List Token) := do
  let methods ← m.methodsWithTokens.mapM fun (token, d) => do
    return (token, o.includes (← m.typeDefAt d.owner) && d.isWeavable)
  return methods.filterMap fun (token, eligible) => if eligible then some token else none

/-- Weaves the methods that no earlier pass was done with. -/
def weavePending (o : WeavePolicy) (imports : Option Imports) (finished : List Token) :
    List Token → PassSummary → Edit PassSummary
  | [], summary => return summary
  | token :: rest, summary => do
    if token ∈ finished then
      weavePending o imports finished rest summary.skip
    else
      let sites ← interceptCalls o imports token
      weavePending o imports finished rest (summary.add sites)

/-- The name of this way of weaving. -/
def weaverName : String := "call-site"

/-- One pass over a module.  References are imported only if there is a method that no earlier
pass was done with. -/
def weavePass (o : WeavePolicy) : Edit PassSummary := do
  let m ← get
  let methods ← weavableMethods m o
  let imports ←
    if methods.all m.isFinished then pure none else some <$> addImports
  let summary ← weavePending o imports m.finished methods {}
  methods.forM Edit.markFinished
  return summary

end Interpose
