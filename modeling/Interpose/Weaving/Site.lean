import Interpose.Intrinsic
import Interpose.Module.Resolve
import Interpose.Code.Instruction

/-!
# Call sites

Which instructions of a method are intercepted.  Calls are, and the creation of objects if the
policy asks for it; calls of the interception runtime, and of constructors and type initializers as
methods, are not.

## Main definitions

* `WeavePolicy` — what to intercept, and in which types
* `CallSite` — an instruction to be intercepted
* `CallSite.at?` — the call site that an instruction is
* `callSites` — the call sites of a method
-/

namespace Interpose

/-- What to intercept, and in which types. -/
structure WeavePolicy where
  /-- Whether the creation of objects is intercepted. -/
  constructions : Bool := true
  /-- Types whose methods are left alone.  A name that ends in a dot stands for all types whose
  names start with it. -/
  excludedTypes : List String := []
deriving DecidableEq, Repr, Inhabited

/-- Whether the methods of a type are left alone. -/
def WeavePolicy.excludes (o : WeavePolicy) (typeName : String) : Bool :=
  isRuntimeType typeName ||
    o.excludedTypes.any fun excluded =>
      typeName = excluded || (excluded.endsWith "." && typeName.startsWith excluded)

/-- An instruction to be intercepted. -/
structure CallSite where
  instruction : Instruction
  /-- The token by which the instruction refers to the method. -/
  token : Token
  target : Method
deriving DecidableEq, Repr, Inhabited

namespace CallSite

/-- Whether the instruction creates an object. -/
def isConstruction (s : CallSite) : Bool := s.instruction.isConstruction

/-- Whether the instruction takes a receiver from the stack. -/
def hasReceiver (s : CallSite) : Bool := !s.isConstruction && s.target.hasThis

/-- The type of what the instruction leaves on the stack. -/
def resultType (s : CallSite) : Ty :=
  if s.isConstruction then s.target.declaringType else s.target.returnType

/-- Whether the policy leaves a call alone. -/
def isLeft (o : WeavePolicy) (s : CallSite) : Bool :=
  isRuntimeType s.target.declaringType.typeName ||
    if s.isConstruction then !o.constructions || s.target.declaringType = .object
    else s.target.isConstructor || s.target.isTypeInitializer

/-- The call site that an instruction is, if it is one. -/
def at? (m : Module) (o : WeavePolicy) (i : Instruction) : Except Error (Option CallSite) := do
  if !i.isCall && !i.isConstruction then return none
  match i.token? with
  | none => throw (.malformed (.missingMethodOperand i.text))
  | some token =>
    let site : CallSite := ⟨i, token, (← m.methodAt token).closeDeclaring⟩
    return if site.isLeft o then none else some site

end CallSite

/-- The instructions of a method, each with the call site that it is. -/
def callSites (m : Module) (o : WeavePolicy) (instructions : List Instruction) :
    Except Error (List (Instruction × Option CallSite)) :=
  instructions.mapM fun i => return (i, ← CallSite.at? m o i)

/-- The tokens of the methods that are called, each once and in the order of their first calls. -/
def calledTokens (sites : List CallSite) : List Token :=
  sites.foldl (fun found site => if site.token ∈ found then found else found ++ [site.token]) []

end Interpose
