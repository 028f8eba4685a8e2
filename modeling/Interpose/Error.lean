import Interpose.Token

/-!
# Errors

What can go wrong, as causes.  The wording of every cause is in the `message` functions, in one
place for the whole library.

## Main definitions

* `Defect` — data that does not have the form it should have
* `BranchProblem` — a branch that cannot be written or taken
* `Fault` — a fault of running code
* `Error` — all of these, and the failures of registration, of files and of substitutes
* `Error.message`, `Error.name` — the wording of an error, and the name of its kind
-/

namespace Interpose

/-- Data that does not have the form it should have. -/
inductive Defect where
  /-- The first byte of a compressed number announces no known width. -/
  | compressedWidth (first : UInt8)
  /-- The bytes of a string from `offset` on are not UTF-8. -/
  | invalidUtf8 (offset : Nat)
  /-- A string has a lone surrogate. -/
  | invalidUtf16
  /-- A number needs more than 29 bits. -/
  | compressedRange (value : Nat)
  /-- A length needs more than 32 bits. -/
  | lengthRange (length : Nat)
  /-- A type signature is nested too deeply. -/
  | typeNesting (limit : Nat)
  /-- A byte in a type signature stands for no type. -/
  | unknownElement (element : UInt8) (offset : Nat)
  /-- A byte stands for no instruction. -/
  | unknownOpcode (code : UInt8)
  /-- A byte after the two-byte mark stands for no instruction. -/
  | unknownExtendedOpcode (code : UInt8)
  /-- A branch leaves the code at its start. -/
  | branchBeforeStart (offset : Nat)
  /-- A branch goes into the middle of an instruction or past the end. -/
  | branchOffBoundary (offset target : Nat)
  /-- A one-byte index operand is too large. -/
  | indexRange (index : Nat) (mnemonic : String)
  /-- An instruction is given an operand of another kind. -/
  | operandMismatch (operand mnemonic expected : String)
  /-- The code of a method is longer than 32 bits can say. -/
  | bodyRange
  /-- The code under construction is longer than 32 bits can say. -/
  | codeRange
  /-- There is no body where one is expected. -/
  | emptyBody
  /-- A method header claims another size than twelve bytes. -/
  | headerSize (size : Nat)
  /-- A method body is followed by exception sections. -/
  | exceptionSections
  /-- The first byte of a method body starts neither form of header. -/
  | unknownHeader (first : UInt8)
  /-- The sequence points are not in the order of their offsets. -/
  | pointOrder (offset : Nat)
  /-- Two neighbouring sequence points are too many lines apart. -/
  | lineDelta (delta : Int)
  /-- A sequence point ends before it starts. -/
  | pointEnd
  /-- The offset of a sequence point needs more than 32 bits. -/
  | pointOffset
  /-- The line of a sequence point is no 32-bit number. -/
  | pointLine (line : Int)
  /-- The last line of a sequence point needs more than 32 bits. -/
  | pointEndLine
  /-- The column of a sequence point is no 16-bit number. -/
  | pointColumn (column : Int)
  /-- A token refers to another table than the one asked for. -/
  | wrongTable (token : Token) (table : Table)
  /-- A token refers to a row that its table does not have. -/
  | missingRow (token : Token) (table : Table)
  /-- A table has no room for another row. -/
  | tableFull (table : Table)
  /-- An instantiation of something that is no method is added. -/
  | instantiatesNoMethod (token : Token)
  /-- A stored instantiation refers to something that is no method. -/
  | instantiationTarget (token : Token)
  /-- A method instantiation refers to a method instantiation. -/
  | nestedInstantiation (token : Token)
  /-- A method instantiation supplies a wrong number of type arguments. -/
  | instantiationArity (token : Token) (supplied : Nat) (method : String)
  /-- A token is used as a type and is none. -/
  | notAType (token : Token)
  /-- A token is used as a method and is none. -/
  | notAMethod (token : Token)
  /-- Bytes are left over after a module. -/
  | trailingBytes (count : Nat)
  /-- The byte that says whether there is a base type is neither zero nor one. -/
  | baseMarker (marker : UInt8)
  /-- The byte that says whether there is a body is neither zero nor one. -/
  | bodyMarker (marker : UInt8)
  /-- There are sequence points for a method without body. -/
  | symbolsWithoutBody (token : Token)
  /-- A method needs more local variables than an index can name. -/
  | localRange
  /-- Methods are woven before the references they need were imported. -/
  | notImported
  /-- A call has no method operand. -/
  | missingMethodOperand (instruction : String)
  /-- A branch has no target. -/
  | missingTarget (instruction : String)
  /-- A count is too large for an integer constant. -/
  | countRange (count : Nat)
deriving DecidableEq, Repr

/-- The wording of a defect. -/
def Defect.message : Defect → String
  | compressedWidth first => "Invalid compressed uint - " ++ toString first.toNat
  | invalidUtf8 offset => "Invalid UTF-8 string at offset " ++ toString offset
  | invalidUtf16 => "Invalid UTF-16 string"
  | compressedRange value =>
    "Value " ++ toString value ++ " is too large for a compressed integer"
  | lengthRange length => "Length " ++ toString length ++ " exceeds u32"
  | typeNesting limit => "Type signature nesting exceeds " ++ toString limit
  | unknownElement element offset =>
    "Unknown element type 0x" ++ hexPadded 2 element.toNat ++ " at offset " ++ toString offset
  | unknownOpcode code => "Invalid opcode: " ++ hexPaddedUpper 2 code.toNat
  | unknownExtendedOpcode code => "Invalid opcode: FE " ++ hexPaddedUpper 2 code.toNat
  | branchBeforeStart offset =>
    "Branch at " ++ ilLabel offset ++ " jumps before the start of the method body"
  | branchOffBoundary offset target =>
    "Branch at " ++ ilLabel offset ++ " targets " ++ ilLabel target ++
      ", which is not an instruction boundary"
  | indexRange index mnemonic =>
    "Index " ++ toString index ++ " does not fit '" ++ mnemonic ++ "'"
  | operandMismatch operand mnemonic expected =>
    "Operand " ++ operand ++ " does not match '" ++ mnemonic ++ "' (expects " ++ expected ++ ")"
  | bodyRange => "Method body exceeds u32 range"
  | codeRange => "Bytecode length exceeds u32 range"
  | emptyBody => "Provided data for body parsing is empty"
  | headerSize size => "Fat method header has unexpected size " ++ toString size
  | exceptionSections => "Method bodies with exception sections are not supported"
  | unknownHeader first => "MethodHeader is neither FAT nor TINY - " ++ toString first.toNat
  | pointOrder offset => "Sequence points out of order at " ++ ilLabel offset
  | lineDelta delta => "Line delta " ++ toString delta ++ " too large"
  | pointEnd => "Sequence point ends before it starts"
  | pointOffset => "Sequence point offset overflow"
  | pointLine line => "Sequence point line " ++ toString line ++ " out of range"
  | pointEndLine => "Sequence point end line overflow"
  | pointColumn column => "Sequence point column " ++ toString column ++ " out of range"
  | wrongTable token table => "Token " ++ token.text ++ " is not a " ++ table.name ++ " token"
  | missingRow token table =>
    "Token " ++ token.text ++ " does not resolve to a " ++ table.name ++ " row"
  | tableFull table => "Table " ++ table.name ++ " is full"
  | instantiatesNoMethod token =>
    "MethodSpec must refer to a MethodDef or MemberRef, got " ++ token.text
  | instantiationTarget token =>
    "MethodSpec refers to " ++ token.text ++ ", which is not a method"
  | nestedInstantiation token => "MethodSpec " ++ token.text ++ " refers to a MethodSpec"
  | instantiationArity token supplied method =>
    "MethodSpec " ++ token.text ++ " supplies " ++ toString supplied ++ " type arguments for " ++
      method
  | notAType token => "Token " ++ token.text ++ " does not denote a type"
  | notAMethod token => "Token " ++ token.text ++ " does not refer to a method"
  | trailingBytes count => toString count ++ " trailing bytes after the module container"
  | baseMarker marker => "Invalid base type marker " ++ toString marker.toNat
  | bodyMarker marker => "Invalid body marker " ++ toString marker.toNat
  | symbolsWithoutBody token => "Symbols for method " ++ token.text ++ " which has no body"
  | localRange => "Method has more than 65535 locals"
  | notImported => "Runtime references were not imported into the module"
  | missingMethodOperand instruction => instruction ++ " has no method operand"
  | missingTarget instruction => instruction ++ " has no branch target"
  | countRange count => "Count " ++ toString count ++ " does not fit an ldc.i4"

/-- A branch that cannot be written or taken. -/
inductive BranchProblem where
  /-- A branch instruction is written without a label. -/
  | needsLabel (mnemonic : String)
  /-- A label is given to an instruction that does not branch. -/
  | notABranch (mnemonic : String)
  /-- A label is out of the reach of a one-byte displacement. -/
  | shortRange (offset : Int) (label : String)
  /-- A label is out of the reach of a four-byte displacement. -/
  | longRange (offset : Int)
  /-- No instruction starts at the target. -/
  | noInstruction (offset : Nat)
deriving DecidableEq, Repr

/-- The wording of a branch problem. -/
def BranchProblem.message : BranchProblem → String
  | needsLabel mnemonic => "instruction '" ++ mnemonic ++ "' needs a label target"
  | notABranch mnemonic => "instruction '" ++ mnemonic ++ "' is not a branch instruction"
  | shortRange offset label =>
    "offset " ++ toString offset ++ " to '" ++ label ++ "' out of range for 1-byte instruction"
  | longRange offset => "offset " ++ toString offset ++ " exceeds i32 range"
  | noInstruction offset => "no instruction starts at " ++ ilLabel offset

/-- A fault of running code. -/
inductive Fault where
  /-- An instruction takes more values than the evaluation stack holds. -/
  | stackUnderflow
  /-- An instruction leaves more values than the method declares. -/
  | stackOverflow (limit : Nat)
  /-- There is no such local variable. -/
  | localIndex (index count : Nat)
  /-- There is no such argument. -/
  | argumentIndex (index count : Nat)
  /-- There is no such array element. -/
  | arrayIndex (index : Int) (length : Nat)
  /-- Null is used as an object. -/
  | nullReference
  /-- An integer is divided by zero. -/
  | divisionByZero
  /-- A value of one type is not one of another. -/
  | invalidCast (source target : String)
  /-- An operation does not apply to what it found. -/
  | typeMismatch (operation found : String)
  /-- No code implements a method. -/
  | missingMethod (method : String)
  /-- A type has no such field. -/
  | missingField (field : String)
  /-- A method has no code to run. -/
  | noMethodBody (method : String)
  /-- An instruction has no meaning to the machine. -/
  | unsupportedOpcode (mnemonic : String) (offset : Nat)
  /-- A method ends without returning. -/
  | fellThrough (method : String)
  /-- Calls are nested too deeply. -/
  | callDepth (limit : Nat)
  /-- Too many instructions were run. -/
  | instructionLimit (limit : Nat)
  /-- An exception is thrown. -/
  | unhandledException (typeName : String) (message : Option String)
deriving DecidableEq, Repr

/-- The wording of a fault. -/
def Fault.message : Fault → String
  | stackUnderflow => "evaluation stack underflow"
  | stackOverflow limit =>
    "evaluation stack overflow (max stack: " ++ toString limit ++ ")"
  | localIndex index count =>
    "local variable index " ++ toString index ++ " out of bounds (count: " ++ toString count ++ ")"
  | argumentIndex index count =>
    "argument index " ++ toString index ++ " out of bounds (count: " ++ toString count ++ ")"
  | arrayIndex index length =>
    "array index " ++ toString index ++ " out of bounds (length: " ++ toString length ++ ")"
  | nullReference => "null reference"
  | divisionByZero => "division by zero"
  | invalidCast source target => "unable to cast " ++ source ++ " to " ++ target
  | typeMismatch operation found => "type mismatch in " ++ operation ++ ": " ++ found
  | missingMethod method => "missing method " ++ method
  | missingField field => "missing field " ++ field
  | noMethodBody method => "method " ++ method ++ " has no body"
  | unsupportedOpcode mnemonic offset =>
    "unsupported opcode " ++ mnemonic ++ " at " ++ ilLabel offset
  | fellThrough method => "execution fell off the end of " ++ method
  | callDepth limit => "call depth exceeded (limit: " ++ toString limit ++ ")"
  | instructionLimit limit =>
    "instruction limit exceeded (limit: " ++ toString limit ++ ")"
  | unhandledException typeName (some message) =>
    "unhandled exception " ++ typeName ++ ": " ++ message
  | unhandledException typeName none => "unhandled exception " ++ typeName

/-- The name of the kind of a fault. -/
def Fault.name : Fault → String
  | stackUnderflow => "StackUnderflow"
  | stackOverflow _ => "StackOverflow"
  | localIndex .. => "LocalIndexOutOfBounds"
  | argumentIndex .. => "ArgumentIndexOutOfBounds"
  | arrayIndex .. => "ArrayIndexOutOfBounds"
  | nullReference => "NullReference"
  | divisionByZero => "DivisionByZero"
  | invalidCast .. => "InvalidCast"
  | typeMismatch .. => "TypeMismatch"
  | missingMethod _ => "MissingMethod"
  | missingField _ => "MissingField"
  | noMethodBody _ => "NoMethodBody"
  | unsupportedOpcode .. => "UnsupportedOpcode"
  | fellThrough _ => "FellThrough"
  | callDepth _ => "CallDepthExceeded"
  | instructionLimit _ => "InstructionLimitExceeded"
  | unhandledException .. => "UnhandledException"

/-- One of the two methods of a property. -/
inductive Accessor where
  | getter
  | setter
deriving DecidableEq, Repr

/-- The name of an accessor. -/
def Accessor.name : Accessor → String
  | getter => "getter"
  | setter => "setter"

/-- Why a file cannot be read or written. -/
inductive FileProblem where
  | notFound
  | notADirectory
  | isADirectory
  /-- The path or one of the names in it is too long. -/
  | tooLong
  /-- The path has a character that no path can have. -/
  | badCharacter
  /-- A problem that has no name of its own. -/
  | other
deriving DecidableEq, Repr

/-- The name of a file problem. -/
def FileProblem.name : FileProblem → String
  | notFound => "NotFound"
  | notADirectory => "NotADirectory"
  | isADirectory => "IsADirectory"
  | tooLong => "InvalidFilename"
  | badCharacter => "InvalidInput"
  | other => "Uncategorized"

/-- Everything that can go wrong. -/
inductive Error where
  /-- Data does not have the form it should have. -/
  | malformed (defect : Defect)
  /-- A read would go past the end of the data. -/
  | outOfBounds
  /-- The data is no module, or one of an unknown version. -/
  | notSupported
  /-- There is no data at all. -/
  | empty
  /-- A file cannot be read or written. -/
  | file (problem : FileProblem)
  /-- No instruction has this name. -/
  | invalidMnemonic (mnemonic : String)
  /-- A branch cannot be written or taken. -/
  | invalidBranch (problem : BranchProblem)
  /-- A branch goes to a label that is nowhere. -/
  | undefinedLabel (label : String)
  /-- A label is placed twice. -/
  | duplicateLabel (label : String)
  /-- A delegate cannot stand in for a method. -/
  | signatureMismatch (method : String)
  /-- A type has no such member. -/
  | memberNotFound (member : String)
  /-- No constructor of a type can be replaced by a factory. -/
  | noCompatibleConstructor (typeName : String)
  /-- A property lacks the accessor to be replaced. -/
  | missingAccessor (property : String) (accessor : Accessor)
  /-- A method that has to be replaced is not. -/
  | missingMock (typeName method : String)
  /-- Running code faulted. -/
  | fault (cause : Fault)
  /-- A substitute failed on its own account. -/
  | substitute (reason : String)
deriving DecidableEq, Repr

/-- The wording of an error. -/
def Error.message : Error → String
  | malformed defect => defect.message
  | outOfBounds => "Out of Bound read would have occurred!"
  | notSupported => "This file type is not supported"
  | empty => "Provided input was empty"
  | file problem => problem.name
  | invalidMnemonic mnemonic => "Invalid instruction mnemonic: " ++ mnemonic
  | invalidBranch problem => "Invalid branch: " ++ problem.message
  | undefinedLabel label => "Undefined label: " ++ label
  | duplicateLabel label => "Duplicate label: " ++ label
  | signatureMismatch method =>
    "The delegate you provided does not have a compatible signature with the '" ++ method ++
      "' method."
  | memberNotFound member => "Unable to find member '" ++ member ++ "'"
  | noCompatibleConstructor typeName =>
    "Unable to find a compatible constructor from type '" ++ typeName ++
      "' that matches the current implementation delegate."
  | missingAccessor property accessor =>
    "The property '" ++ property ++ "' has no " ++ accessor.name ++ " method."
  | missingMock typeName method =>
    "Method '" ++ typeName ++ "." ++ method ++ "' is missing a mock implementation"
  | .fault cause => cause.message
  | substitute reason => "Substitute failed - " ++ reason

/-- The name of the kind of an error.  That of a fault follows the name of the machine. -/
def Error.name : Error → String
  | malformed _ => "Malformed"
  | outOfBounds => "OutOfBounds"
  | notSupported => "NotSupported"
  | empty => "Empty"
  | file _ => "FileError"
  | invalidMnemonic _ => "InvalidMnemonic"
  | invalidBranch _ => "InvalidBranch"
  | undefinedLabel _ => "UndefinedLabel"
  | duplicateLabel _ => "DuplicateLabel"
  | signatureMismatch _ => "SignatureMismatch"
  | memberNotFound _ => "MemberNotFound"
  | noCompatibleConstructor _ => "NoCompatibleConstructor"
  | missingAccessor .. => "MissingAccessor"
  | missingMock .. => "MissingMock"
  | .fault cause => "Emulation." ++ cause.name
  | substitute _ => "Substitute"

end Interpose
