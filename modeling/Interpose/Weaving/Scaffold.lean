import Interpose.Code.Listing
import Interpose.Module.Edit
import Interpose.Weaving.Site

/-!
# Scaffolds

The code that is put around intercepted instructions.  A prologue asks for the call map of the
running method.  At each call site the arguments are moved to local variables; if the map has a
substitute for the call, a context is made and the substitute is run, and otherwise the arguments
are put back and the instruction is run as before.

## Main definitions

* `Imports` — the tokens that scaffolds refer to
* `Host` — the method that is woven
* `Allocate`, `Slot` — local variables for the values of a call
* `prologue` — the code in front of a method
* `SiteLayout.reserve`, `SiteLayout.listing` — local variables and code of a call site
-/

namespace Interpose

/-- The tokens that scaffolds refer to. -/
structure Imports where
  intrinsic : Intrinsic → Token
  methodBase : Token
  object : Token

/-- The method that is woven. -/
structure Host where
  token : Token
  owner : Token
  hasThis : Bool
  /-- The local variable that holds the call map. -/
  mapLocal : UInt16
deriving Repr

namespace Host

/-- Loads the object whose method runs; static methods have none. -/
def loadSelf (host : Host) : ListingItem := if host.hasThis then .ldarg 0 else .plain .ldnull

end Host

namespace Imports

/-- Calls an intrinsic. -/
def call (imports : Imports) (i : Intrinsic) : ListingItem := .withToken .call (imports.intrinsic i)

/-- Calls an intrinsic on what is on the stack. -/
def callOn (imports : Imports) (i : Intrinsic) : ListingItem :=
  .withToken .callvirt (imports.intrinsic i)

/-- Loads the object that stands for a method. -/
def quoteMethod (imports : Imports) (method : Token) : List ListingItem :=
  [.withToken .ldtoken method, imports.call .getMethodFromHandle]

end Imports

/-- Fills an array that is on the stack with what the given code loads for each element. -/
def fillArray (elements : List (List ListingItem)) : List ListingItem :=
  elements.zipIdx.flatMap fun (load, index) =>
    [.plain .dup, .int32 (Int32.ofNat index)] ++ load ++ [.plain .stelemRef]

/-- Makes an array and fills it with what the given code loads for each element. -/
def makeArray (element : Token) (elements : List (List ListingItem)) : List ListingItem :=
  [.int32 (Int32.ofNat elements.length), .withToken .newarr element] ++ fillArray elements

/-- The label behind the prologue where there is no provider. -/
def noProviderLabel : String := "prologue_no_provider"

/-- The label of the code behind the prologue. -/
def bodyLabel : String := "prologue_done"

/-- The code in front of a method: it stores the call map of the method, if there is a provider for
the object whose method runs. -/
def prologue (imports : Imports) (host : Host) (called : List Token) : List ListingItem :=
  [host.loadSelf, .withToken .ldtoken host.owner, imports.call .getTypeFromHandle,
    imports.call .getProvider, .plain .dup, .branch .brfalse noProviderLabel, host.loadSelf] ++
  imports.quoteMethod host.token ++
  makeArray imports.methodBase (called.map imports.quoteMethod) ++
  [imports.call .captureStackTrace, imports.call .getMap, .stloc host.mapLocal,
    .branch .br bodyLabel, .label noProviderLabel, .plain .pop, .label bodyLabel]

/-- A computation that adds local variables to a method and rows to its module. -/
abbrev Allocate := StateT (Array Ty) Edit

/-- Adds a local variable. -/
def Allocate.newLocal (type : Ty) : Allocate UInt16 := do
  let locals ← get
  if 0x10000 ≤ locals.size then throw (.malformed .localRange)
  set (locals.push type)
  return UInt16.ofNat locals.size

/-- The token by which a type is named where values of it have to be wrapped. -/
def boxToken? (type : Ty) : Edit (Option Token) :=
  if type.needsWrapping then some <$> Edit.tokenOfType type else return none

/-- The token by which the type of a result is named; no result needs none. -/
def resultToken? (type : Ty) : Edit (Option Token) :=
  if type = .void then return none else some <$> Edit.tokenOfType type

/-- A local variable that holds a value of a call. -/
structure Slot where
  type : Ty
  number : UInt16
  /-- The token of the type if values of it have to be wrapped. -/
  box : Option Token
deriving DecidableEq, Repr, Inhabited

namespace Slot

/-- Moves the topmost value to the local variable. -/
def spill (s : Slot) : ListingItem := .stloc s.number

/-- Puts the value back on the stack. -/
def reload (s : Slot) : ListingItem := .ldloc s.number

/-- Loads the value as an object. -/
def loadObject (s : Slot) : List ListingItem :=
  s.reload :: (s.box.map fun token => ListingItem.withToken .box token).toList

/-- Loads the value as one of the arguments of a context; references to storage become null. -/
def loadArgument (s : Slot) : List ListingItem :=
  if s.type.isByRef then [.plain .ldnull] else s.loadObject

end Slot

/-- A call site with the local variables for its values. -/
structure SiteLayout where
  site : CallSite
  receiver : Option Slot
  arguments : List Slot
  /-- The token of the type of the result, if there is one. -/
  result : Option Token
deriving Repr, Inhabited

namespace SiteLayout

/-- Reserves the local variables of a call site, the one for the receiver first, and then the
tokens of the types of its values. -/
def reserve (site : CallSite) : Allocate SiteLayout := do
  let target := site.target
  let receiver ←
    if site.hasReceiver then some <$> Allocate.newLocal target.declaringType else pure none
  -- The local variables are numbered before any row for a type is added to the module.
  let numbers ← target.parameters.mapM Allocate.newLocal
  let receiver ← receiver.mapM fun number =>
    return { type := target.declaringType, number, box := ← boxToken? target.declaringType : Slot }
  let arguments ← (target.parameters.zip numbers).mapM fun (type, number) =>
    return { type, number, box := ← boxToken? type : Slot }
  return { site, receiver, arguments, result := ← resultToken? site.resultType }

/-- The label of the code that runs the instruction as before. -/
def fallbackLabel (s : SiteLayout) : String :=
  "site_" ++ hexPadded 4 s.site.instruction.offset ++ "_fallback"

/-- The label behind the code of the call site. -/
def doneLabel (s : SiteLayout) : String :=
  "site_" ++ hexPadded 4 s.site.instruction.offset ++ "_done"

/-- Moves the values of the call to local variables. -/
def spills (s : SiteLayout) : List ListingItem :=
  -- The last argument is on top of the stack.
  s.arguments.reverse.map Slot.spill ++ s.receiver.toList.map Slot.spill

/-- Puts the values of the call back on the stack. -/
def reloads (s : SiteLayout) : List ListingItem :=
  s.receiver.toList.map Slot.reload ++ s.arguments.map Slot.reload

/-- Goes to the fallback unless the call map has a substitute. -/
def choice (imports : Imports) (host : Host) (s : SiteLayout) : List ListingItem :=
  [.ldloc host.mapLocal, .branch .brfalse s.fallbackLabel, .ldloc host.mapLocal] ++
  imports.quoteMethod s.site.token ++
  [imports.callOn .containsMapping, .branch .brfalse s.fallbackLabel]

/-- Loads the receiver of the call as an object; calls without receiver have null. -/
def loadTarget (s : SiteLayout) : List ListingItem :=
  match s.receiver with
  | some slot => slot.loadObject
  | none => [.plain .ldnull]

/-- Makes the context of the call. -/
def makeContext (imports : Imports) (host : Host) (s : SiteLayout) : List ListingItem :=
  s.loadTarget ++ [host.loadSelf] ++
  imports.quoteMethod host.token ++ imports.quoteMethod s.site.token ++
  [imports.call .captureStackTrace] ++
  makeArray imports.object (s.arguments.map Slot.loadArgument) ++
  [.withToken .newobj (imports.intrinsic .newContext)]

/-- Turns the object that a substitute returns into the result of the call. -/
def takeResult (s : SiteLayout) : ListingItem :=
  match s.result with
  | some token => .withToken .unboxAny token
  | none => .plain .pop

/-- Runs the substitute of the call. -/
def substitution (imports : Imports) (host : Host) (s : SiteLayout) : List ListingItem :=
  [.ldloc host.mapLocal] ++ imports.quoteMethod s.site.token ++ [imports.callOn .getSubstitute] ++
  s.makeContext imports host ++
  [imports.callOn .invoke, s.takeResult, .branch .br s.doneLabel]

/-- The code of a call site. -/
def listing (imports : Imports) (host : Host) (s : SiteLayout) : List ListingItem :=
  s.spills ++ s.choice imports host ++ s.substitution imports host ++
  [.label s.fallbackLabel] ++ s.reloads ++ [.decoded s.site.instruction, .label s.doneLabel]

end SiteLayout

end Interpose
