import Interpose.Module.Basic

/-!
# Intrinsics

The methods of the interception runtime that woven code calls.  They belong to no module; the
machine runs them itself.

## Main definitions

* `Intrinsic` — the methods
* `Intrinsic.memberRef`, `Intrinsic.method` — the reference a module imports, and what it stands for
* `Intrinsic.ofMethod?` — the intrinsic that a method is
-/

namespace Interpose

/-- The namespace of the interception runtime. -/
def runtimeNamespace : String := "Dotshim.Runtime"

/-- Whether a type belongs to the interception runtime. -/
def isRuntimeType (typeName : String) : Bool := typeName.startsWith (runtimeNamespace ++ ".")

/-- The methods of the interception runtime. -/
inductive Intrinsic where
  /-- The provider for a calling object. -/
  | getProvider
  /-- The call map of the running method. -/
  | getMap
  /-- The methods that are running. -/
  | captureStackTrace
  /-- Whether a call map has a substitute for a method. -/
  | containsMapping
  /-- The substitute that a call map has for a method. -/
  | getSubstitute
  /-- Runs a substitute. -/
  | invoke
  /-- Makes the context of an intercepted call. -/
  | newContext
  /-- The object that stands for a method. -/
  | getMethodFromHandle
  /-- The object that stands for a type. -/
  | getTypeFromHandle
deriving DecidableEq, Repr, Inhabited

namespace Intrinsic

/-- Every intrinsic, in the order in which modules import them. -/
def all : List Intrinsic :=
  [.getProvider, .getMap, .captureStackTrace, .containsMapping, .getSubstitute, .invoke,
    .newContext, .getMethodFromHandle, .getTypeFromHandle]

/-- The type of what decides whether calls are intercepted. -/
def interceptorType : Ty := .classType "Dotshim.Runtime.Interceptor"
/-- The type of call maps. -/
def callMapType : Ty := .classType "Dotshim.Runtime.CallMap"
/-- The type of providers. -/
def providerType : Ty := .classType "Dotshim.Runtime.ICallProvider"
/-- The type of substitutes. -/
def substituteType : Ty := .classType "Dotshim.Runtime.ISubstitute"
/-- The type of contexts. -/
def contextType : Ty := .classType "Dotshim.Runtime.InvocationContext"
/-- The type of objects that stand for methods. -/
def methodBaseType : Ty := .classType "System.Reflection.MethodBase"
/-- The type of objects that stand for types. -/
def systemType : Ty := .classType "System.Type"
/-- The type of stack traces. -/
def stackTraceType : Ty := .classType "System.Diagnostics.StackTrace"

/-- The type that declares an intrinsic. -/
def declaringType : Intrinsic → Ty
  | getProvider | getMap | captureStackTrace => interceptorType
  | containsMapping | getSubstitute => callMapType
  | invoke => substituteType
  | newContext => contextType
  | getMethodFromHandle => methodBaseType
  | getTypeFromHandle => systemType

/-- The name of an intrinsic as a method. -/
def name : Intrinsic → String
  | getProvider => "GetProvider"
  | getMap => "GetMap"
  | captureStackTrace => "CaptureStackTrace"
  | containsMapping => "ContainsMapping"
  | getSubstitute => "GetSubstitute"
  | invoke => "Invoke"
  | newContext => constructorName
  | getMethodFromHandle => "GetMethodFromHandle"
  | getTypeFromHandle => "GetTypeFromHandle"

/-- The signature of an intrinsic. -/
def signature : Intrinsic → MethodSig
  | getProvider => ⟨false, [.object, systemType], providerType, 0⟩
  | getMap =>
    ⟨false, [providerType, .object, methodBaseType, .array methodBaseType, stackTraceType],
      callMapType, 0⟩
  | captureStackTrace => ⟨false, [], stackTraceType, 0⟩
  | containsMapping => ⟨true, [methodBaseType], .bool, 0⟩
  | getSubstitute => ⟨true, [methodBaseType], substituteType, 0⟩
  | invoke => ⟨true, [contextType], .object, 0⟩
  | newContext =>
    ⟨true, [.object, .object, methodBaseType, methodBaseType, stackTraceType, .array .object],
      .void, 0⟩
  | getMethodFromHandle => ⟨false, [.valueType "System.RuntimeMethodHandle"], methodBaseType, 0⟩
  | getTypeFromHandle => ⟨false, [.valueType "System.RuntimeTypeHandle"], systemType, 0⟩

/-- The reference to an intrinsic that a module imports. -/
def memberRef (i : Intrinsic) : MemberRef := ⟨i.declaringType, i.name, i.signature⟩

/-- The method that an intrinsic is. -/
def method (i : Intrinsic) : Method := i.memberRef.method

/-- The intrinsic that a method is: one with the same type, name and number of parameters that has a
receiver just if the method has one. -/
def ofMethod? (m : Method) : Option Intrinsic :=
  all.find? fun i =>
    i.name = m.name && i.method.key = m.key && i.method.isStatic = m.isStatic

end Intrinsic

end Interpose
