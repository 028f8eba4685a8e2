import Interpose.Module.Edit
import Interpose.Ty.Codec

/-!
# Modules as bytes

The container holds the tables of a module one after the other, each with the number of its rows in
front, and behind them the sequence points of the methods that have any.

## Main definitions

* `Module.decode` — reads a module, and accepts nothing but a whole container
* `Module.encode` — the container of a module
-/

namespace Interpose

/-- The first four bytes of a container. -/
def containerMagic : List UInt8 := [0x44, 0x53, 0x48, 0x4D]

/-- The version of the container format. -/
def containerVersion : Nat := 1

/-- The flag of sequence points behind the tables. -/
def symbolsFlag : Nat := 1

/-- Reads a type definition. -/
def TypeDef.decode : Read TypeDef := do
  let name ← Read.utf8
  let flags := TypeFlags.ofBits (← Read.word32)
  let genericArity ← Read.compressedNat
  let marker ← Read.byte
  let base ←
    if marker = 0 then pure none
    else if marker = 1 then some <$> Ty.decode
    else Read.malformed (.baseMarker marker)
  let interfaces ← Ty.decodeList
  return { name, base, interfaces, flags, genericArity := UInt32.ofNat genericArity }

/-- Reads a field definition. -/
def FieldDef.decode : Read FieldDef := do
  let owner ← Read.token
  let name ← Read.utf8
  let type ← Ty.decode
  let isStatic ← Read.byte
  return { owner, name, type, isStatic := isStatic ≠ 0 }

/-- Reads a body together with its local variables. -/
def Body.decodeWithLocals : Read Body := do
  let locals ← Ty.decodeList
  let start ← Read.position
  let rest ← Read.bytes (← Read.remaining)
  let (body, used) ← Body.decode rest
  Read.seek (start + used)
  return { body with locals }

/-- Reads a method definition. -/
def MethodDef.decode : Read MethodDef := do
  let owner ← Read.token
  let name ← Read.utf8
  let flags := MethodFlags.ofBits (← Read.word16)
  let genericArity ← Read.compressedNat
  let parameters ← Ty.decodeList
  let returnType ← Ty.decode
  let marker ← Read.byte
  let body ←
    if marker = 0 then pure none
    else if marker = 1 then some <$> Body.decodeWithLocals
    else Read.malformed (.bodyMarker marker)
  return { owner, name, flags, parameters, returnType, body
           genericArity := UInt32.ofNat genericArity }

/-- Reads a method signature. -/
def MethodSig.decode : Read MethodSig := do
  let hasThis ← Read.byte
  let genericArity ← Read.compressedNat
  let parameters ← Ty.decodeList
  let returnType ← Ty.decode
  return { hasThis := hasThis ≠ 0, parameters, returnType
           genericArity := UInt32.ofNat genericArity }

/-- Reads a reference to a method. -/
def MemberRef.decode : Read MemberRef := do
  let parent ← Ty.decode
  let name ← Read.utf8
  let signature ← MethodSig.decode
  return { parent, name, signature }

/-- Reads an instantiation of a method. -/
def MethodSpec.decode : Read MethodSpec := do
  let method ← Read.token
  let instantiation ← Ty.decodeList
  return { method, instantiation }

namespace Module

/-- Changes a module while reading. -/
def editing {α : Type} (m : Module) (change : Edit α) : Read Module := do
  let (result, m) := change.run m
  let _ ← result
  return m

/-- Reads the given number of rows and adds each to the module before the next is read. -/
def decodeRows {α : Type} (read : Read α) (add : α → Edit Unit) :
    (count : Nat) → Module → Read Module
  | 0, m => return m
  | count + 1, m => do
    let row ← read
    let m ← m.editing (add row)
    decodeRows read add count m

/-- Reads rows with their number in front and adds them to a module. -/
def decodeTable {α : Type} (m : Module) (read : Read α) (add : α → Edit Unit) : Read Module := do
  let count ← Read.length
  decodeRows read add count m

/-- Adds the mark of a method that has been woven. -/
def addFinished (token : Token) : Edit Unit := do
  let _ ← (← get).methodDefAt token
  Edit.markFinished token

/-- Reads the sequence points of one method. -/
def decodeSymbols : Read (Token × SequencePoints) := do
  let token ← Read.token
  let length ← Read.length
  let points ← SequencePoints.decode (← Read.bytes length)
  return (token, points)

/-- Gives a method its sequence points. -/
def addSymbols (symbols : Token × SequencePoints) : Edit Unit := do
  let d ← (← get).methodDefAt symbols.1
  match d.body with
  | some body => Edit.setMethod symbols.1 { d with body := some { body with points := symbols.2 } }
  | none => throw (.malformed (.symbolsWithoutBody symbols.1))

/-- Checks that an instantiation refers to a method. -/
def checkMethodSpec (m : Module) (spec : MethodSpec) : Except Error Unit :=
  match spec.method.table? with
  | some .methodDef => discard (m.methodDefAt spec.method)
  | some .memberRef => discard (m.memberRefAt spec.method)
  | _ => throw (.malformed (.instantiationTarget spec.method))

/-- Reads a container from its first byte to its last. -/
def decodeContainer : Read Module := do
  if (← Read.bytes containerMagic.length) ≠ containerMagic then throw .notSupported
  if (← Read.word 2) ≠ containerVersion then throw .notSupported
  let flags ← Read.word 2
  let name ← Read.utf8
  let versionId ← Read.bytes 16
  let m : Module := { name, versionId }
  let m ← m.decodeTable TypeDef.decode fun d => discard (Edit.insertType d)
  let m ← m.decodeTable FieldDef.decode fun d => discard (Edit.insertField d)
  let m ← m.decodeTable MethodDef.decode fun d => discard (Edit.insertMethod d)
  let memberRefs ← Read.list MemberRef.decode
  let methodSpecs ← Read.list MethodSpec.decode
  let typeSpecs ← Read.list Ty.decode
  let userStrings ← Read.list Read.utf16
  let m := { m with
    memberRefs := memberRefs.toArray
    methodSpecs := methodSpecs.toArray
    typeSpecs := typeSpecs.toArray
    userStrings := userStrings.toArray }
  let m ← m.decodeTable Read.token addFinished
  let m ← if flags % 2 = symbolsFlag then m.decodeTable decodeSymbols addSymbols else pure m
  if ← Read.hasMore then Read.malformed (.trailingBytes (← Read.remaining))
  methodSpecs.forM fun spec => m.checkMethodSpec spec
  return m

/-- The module that a container holds. -/
def decode (data : List UInt8) : Except Error Module :=
  if data.isEmpty then throw .empty else Read.run decodeContainer data.toArray

end Module

/-- The written form of a type definition. -/
def TypeDef.encode (d : TypeDef) : Write := do
  let name ← Write.utf8 d.name
  let genericArity ← Write.compressedNat d.genericArity.toNat
  let base ← match d.base with
    | some base => do pure (1 :: (← base.encode))
    | none => pure [0]
  let interfaces ← Ty.encodeList d.interfaces
  return name ++ littleEndian 4 d.flags.bits.toNat ++ genericArity ++ base ++ interfaces

/-- The written form of a field definition. -/
def FieldDef.encode (d : FieldDef) : Write := do
  let name ← Write.utf8 d.name
  let type ← d.type.encode
  return Write.token d.owner ++ name ++ type ++ Write.flag d.isStatic

/-- The written form of a body together with its local variables. -/
def Body.encodeWithLocals (b : Body) : Write := do
  let locals ← Ty.encodeList b.locals
  let body ← b.encode
  return locals ++ body

/-- The written form of a method definition. -/
def MethodDef.encode (d : MethodDef) : Write := do
  let name ← Write.utf8 d.name
  let genericArity ← Write.compressedNat d.genericArity.toNat
  let parameters ← Ty.encodeList d.parameters
  let returnType ← d.returnType.encode
  let body ← match d.body with
    | some body => do pure (1 :: (← body.encodeWithLocals))
    | none => pure [0]
  return Write.token d.owner ++ name ++ littleEndian 2 d.flags.bits.toNat ++ genericArity ++
    parameters ++ returnType ++ body

/-- The written form of a method signature. -/
def MethodSig.encode (s : MethodSig) : Write := do
  let genericArity ← Write.compressedNat s.genericArity.toNat
  let parameters ← Ty.encodeList s.parameters
  let returnType ← s.returnType.encode
  return Write.flag s.hasThis ++ genericArity ++ parameters ++ returnType

/-- The written form of a reference to a method. -/
def MemberRef.encode (r : MemberRef) : Write := do
  let parent ← r.parent.encode
  let name ← Write.utf8 r.name
  let signature ← r.signature.encode
  return parent ++ name ++ signature

/-- The written form of an instantiation of a method. -/
def MethodSpec.encode (s : MethodSpec) : Write := do
  let instantiation ← Ty.encodeList s.instantiation
  return Write.token s.method ++ instantiation

namespace Module

/-- The methods that have sequence points, with them. -/
def symbols (m : Module) : List (Token × SequencePoints) :=
  m.methodsWithTokens.filterMap fun (token, d) =>
    match d.body with
    | some body => if body.points.isEmpty then none else some (token, body.points)
    | none => none

/-- The written form of the sequence points of one method. -/
def encodeSymbols (symbols : Token × SequencePoints) : Write := do
  let points ← symbols.2.encode
  let length ← Write.length points.length
  return Write.token symbols.1 ++ length ++ points

/-- The container of a module. -/
def encode (m : Module) : Write := do
  let symbols := m.symbols
  let flags := if symbols.isEmpty then 0 else symbolsFlag
  let name ← Write.utf8 m.name
  let types ← Write.list TypeDef.encode m.types.toList
  let fields ← Write.list FieldDef.encode m.fields.toList
  let methods ← Write.list MethodDef.encode m.methods.toList
  let memberRefs ← Write.list MemberRef.encode m.memberRefs.toList
  let methodSpecs ← Write.list MethodSpec.encode m.methodSpecs.toList
  let typeSpecs ← Write.list Ty.encode m.typeSpecs.toList
  let userStrings ← Write.list Write.utf16 m.userStrings.toList
  let finished ← Write.list (fun token => pure (Write.token token)) m.finished
  let points ← if symbols.isEmpty then pure [] else Write.list encodeSymbols symbols
  return containerMagic ++ littleEndian 2 containerVersion ++ littleEndian 2 flags ++ name ++
    m.versionId ++ types ++ fields ++ methods ++ memberRefs ++ methodSpecs ++ typeSpecs ++
    userStrings ++ finished ++ points

end Module

end Interpose
