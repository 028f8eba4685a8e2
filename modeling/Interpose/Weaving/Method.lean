import Interpose.Weaving.Scaffold

/-!
# Weaving a method

A method with call sites gets a prologue, and each of its call sites a scaffold.  All other
instructions stay, branches in their long form, and the sequence points move with the code.

## Main definitions

* `addImports` — adds what scaffolds refer to
* `interceptCalls` — weaves the body of a method
-/

namespace Interpose

/-- The number of values that scaffolds need on the stack in addition to those of the method. -/
def scaffoldDepth : Nat := 12

/-- The stack size of a woven method, which cannot exceed what a header can say. -/
def wovenStack (maxStack : UInt16) : UInt16 :=
  UInt16.ofNat (min (maxStack.toNat + scaffoldDepth) 0xFFFF)

/-- The label of an instruction of the method. -/
def instructionLabel (offset : Nat) : String := ilLabel offset

/-- An instruction that is not intercepted; branches go to the label of their target. -/
def keptItem (i : Instruction) : Except Error ListingItem :=
  if i.op.isBranch then
    match i.target? with
    | some target => return .branch i.op.widened (instructionLabel target)
    | none => throw (.malformed (.missingTarget i.text))
  else
    return .decoded i

/-- The code of one instruction, which starts with its label. -/
def instructionListing (imports : Imports) (host : Host) (i : Instruction)
    (site : Option CallSite) : Allocate (List ListingItem) := do
  let label := ListingItem.label (instructionLabel i.offset)
  match site with
  | some site => return label :: (← SiteLayout.reserve site).listing imports host
  | none => return [label, ← keptItem i]

/-- The code of a woven method. -/
def methodListing (imports : Imports) (host : Host)
    (instructions : List (Instruction × Option CallSite)) : Allocate (List ListingItem) := do
  let called := calledTokens (instructions.filterMap Prod.snd)
  let parts ← instructions.mapM fun (i, site) => instructionListing imports host i site
  return prologue imports host called ++ parts.flatten

/-- The tokens that scaffolds refer to, if they were imported. -/
def requireImports (imports : Option Imports) : Except Error Imports :=
  match imports with
  | some imports => return imports
  | none => throw (.malformed .notImported)

/-- The body of a woven method. -/
def wovenBody (imports : Option Imports) (token : Token) (d : MethodDef) (body : Body)
    (instructions : List (Instruction × Option CallSite)) : Edit Body := do
  let layout : Allocate (List ListingItem) := do
    -- The call map comes right behind the local variables that the method had.
    let mapLocal ← Allocate.newLocal Intrinsic.callMapType
    let host : Host := { token, owner := d.owner, hasThis := d.hasThis, mapLocal }
    methodListing (← requireImports imports) host instructions
  let (items, locals) ← layout.run body.locals.toArray
  let (code, labels) ← assemble items
  -- Each instruction starts with its label, so the label tells where its code has gone.
  let moved (offset : UInt32) : Option UInt32 :=
    (labels.lookup (instructionLabel offset.toNat)).map UInt32.ofNat
  return {
    maxStack := wovenStack body.maxStack
    initLocals := true
    locals := locals.toList
    code
    points := SequencePoints.relocate body.points moved }

/-- Weaves the body of a method, if it has one with call sites, and gives the number of these. -/
def interceptCalls (o : WeavePolicy) (imports : Option Imports) (token : Token) : Edit Nat := do
  let m ← get
  let d ← m.methodDefAt token
  match d.body with
  | none => return 0
  | some body =>
    let instructions ← callSites m o (← decodeCode body.code)
    let count := (instructions.filterMap Prod.snd).length
    if count = 0 then return 0
    let body ← wovenBody imports token d body instructions
    Edit.setBody token (some body)
    return count

/-- Adds references to all intrinsics. -/
def importIntrinsics : Edit (List (Intrinsic × Token)) :=
  Intrinsic.all.mapM fun i => return (i, ← Edit.insertMemberRef i.memberRef)

/-- Adds what scaffolds refer to. -/
def addImports : Edit Imports := do
  let references ← importIntrinsics
  let methodBase ← Edit.tokenOfType Intrinsic.methodBaseType
  let object ← Edit.tokenOfType .object
  return {
    intrinsic := fun i => (references.lookup i).getD default
    methodBase
    object }

end Interpose
