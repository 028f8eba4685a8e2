import Interpose.Module.Basic

/-!
# Adding rows to a module

Tables only grow.  References, instantiations, composed types and strings are kept once: adding one
that is there already gives the token it has.

## Main definitions

* `Edit` — computations that change a module and may fail
* `Edit.insertType`, `Edit.insertField`, … — a new row and its token
* `Edit.tokenOfType` — a token that stands for the given type
* `Edit.setBody`, `Edit.markFinished` — the other changes a module can undergo
-/

namespace Interpose

/-- A computation that changes a module; changes made before it fails stay. -/
abbrev Edit := ExceptT Error (StateM Module)

namespace Edit

/-- The greatest row number of a token. -/
def rowLimit : Nat := 0xFFFFFF

/-- The token of the row at a position, if a token can name it. -/
def tokenOf (id : Table) (index : Nat) : Except Error Token :=
  if index < rowLimit then return Module.tokenAt id index
  else throw (.malformed (.tableFull id))

/-- Adds a type definition. -/
def insertType (d : TypeDef) : Edit Token := do
  let m ← get
  set { m with types := m.types.push d }
  return Module.tokenAt .typeDef m.types.size

/-- Adds a field definition to a type that is there. -/
def insertField (d : FieldDef) : Edit Token := do
  let m ← get
  let _ ← m.typeDefAt d.owner
  let token ← tokenOf .field m.fields.size
  set { m with fields := m.fields.push d }
  return token

/-- Adds a method definition to a type that is there. -/
def insertMethod (d : MethodDef) : Edit Token := do
  let m ← get
  let _ ← m.typeDefAt d.owner
  let token ← tokenOf .methodDef m.methods.size
  set { m with methods := m.methods.push d }
  return token

/-- Adds a reference to a method. -/
def insertMemberRef (r : MemberRef) : Edit Token := do
  let m ← get
  match m.memberRefs.findIdx? (· = r) with
  | some index => tokenOf .memberRef index
  | none =>
    let token ← tokenOf .memberRef m.memberRefs.size
    set { m with memberRefs := m.memberRefs.push r }
    return token

/-- Adds an instantiation of a method. -/
def insertMethodSpec (s : MethodSpec) : Edit Token := do
  if !(s.method.isIn .methodDef || s.method.isIn .memberRef) then
    throw (.malformed (.instantiatesNoMethod s.method))
  let m ← get
  match m.methodSpecs.findIdx? (· = s) with
  | some index => tokenOf .methodSpec index
  | none =>
    let token ← tokenOf .methodSpec m.methodSpecs.size
    set { m with methodSpecs := m.methodSpecs.push s }
    return token

/-- Adds a type that has no definition of its own. -/
def insertTypeSpec (type : Ty) : Edit Token := do
  let m ← get
  match m.typeSpecs.findIdx? (· = type) with
  | some index => tokenOf .typeSpec index
  | none =>
    let token ← tokenOf .typeSpec m.typeSpecs.size
    set { m with typeSpecs := m.typeSpecs.push type }
    return token

/-- Adds a string literal. -/
def insertString (text : String) : Edit Token := do
  let m ← get
  match m.userStrings.findIdx? (· = text) with
  | some index => tokenOf .userString index
  | none =>
    let token ← tokenOf .userString m.userStrings.size
    set { m with userStrings := m.userStrings.push text }
    return token

/-- The name of a class or value type that may have a definition. -/
def definedName? : Ty → Option String
  | .classType name | .valueType name => some name
  | _ => none

/-- A token that stands for the given type: that of its definition if there is one. -/
def tokenOfType (type : Ty) : Edit Token := do
  match (definedName? type).bind (← get).typeToken? with
  | some token => return token
  | none => insertTypeSpec type

/-- Replaces a method definition. -/
def setMethod (token : Token) (d : MethodDef) : Edit Unit := do
  let m ← get
  let _ ← m.methodDefAt token
  set { m with methods := m.methods.setIfInBounds (token.row - 1) d }

/-- Gives a method another body, or none. -/
def setBody (token : Token) (body : Option Body) : Edit Unit := do
  let d ← (← get).methodDefAt token
  setMethod token { d with body }

/-- A list of tokens in increasing order with one more in its place, unless it is there already. -/
def insertToken (token : Token) : List Token → List Token
  | [] => [token]
  | first :: rest =>
    if token = first then first :: rest
    else if token.value < first.value then token :: first :: rest
    else first :: insertToken token rest

/-- Remembers that a method has been woven. -/
def markFinished (token : Token) : Edit Unit :=
  modify fun m => { m with finished := insertToken token m.finished }

/-- Remembers that methods have been woven, and tells of each whether that is new. -/
def markAll (tokens : List Token) : Edit (List Bool) :=
  tokens.mapM fun token => do
    let known := (← get).isFinished token
    markFinished token
    return !known

end Edit

end Interpose
