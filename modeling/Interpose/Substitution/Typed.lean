import Interpose.Substitution.Delegate

/-!
# Typed functions as delegates

A function on ordinary types stands for a delegate: its type gives the signature, its arguments are
taken from values one after the other, and its result becomes a value.

## Main definitions

* `Argument` — types that can be taken from values
* `Outcome` — types that become values
* `Typed` — functions from the one to the other
* `Delegate.ofFunction` — the delegate that a function stands for
-/

namespace Interpose

/-- A type that can be taken from values. -/
class Argument (α : Type) where
  type : Ty
  take : Value → Act α

/-- A type that becomes values. -/
class Outcome (α : Type) where
  type : Ty
  give : α → Value

/-- What a conversion finds, if it finds anything in a value. -/
def Act.convert {α : Type} (target : Ty) (view : Value → Option α) (value : Value) : Act α :=
  match view value with
  | some found => return found
  | none => Act.invalidCast value target

namespace Value

/-- A truth value, or an integer that is zero or not. -/
def asBool? : Value → Option Bool
  | bool value => some value
  | int32 value => some (value ≠ 0)
  | _ => none

/-- A character, or an integer that is the code point of one. -/
def asChar? : Value → Option Char
  | char value => some value
  | int32 value => charOfInt? value
  | _ => none

/-- A double. -/
def asFloat64? : Value → Option Float
  | float64 value => some value
  | _ => none

/-- A string; null is none. -/
def takeString (value : Value) : Act String :=
  match value with
  | string text => return text
  | null => Act.fault .nullReference
  | other => Act.invalidCast other .string

end Value

instance : Argument Int32 := ⟨.int32, Act.convert .int32 Value.asInt32?⟩
instance : Argument Int64 := ⟨.int64, Act.convert .int64 Value.asInt64?⟩
instance : Argument Bool := ⟨.bool, Act.convert .bool Value.asBool?⟩
instance : Argument Char := ⟨.char, Act.convert .char Value.asChar?⟩
instance : Argument Float := ⟨.float64, Act.convert .float64 Value.asFloat64?⟩
instance : Argument String := ⟨.string, Value.takeString⟩
instance : Argument Value := ⟨.object, fun value => return value⟩

instance : Outcome Int32 := ⟨.int32, .int32⟩
instance : Outcome Int64 := ⟨.int64, .int64⟩
instance : Outcome Bool := ⟨.bool, .bool⟩
instance : Outcome Char := ⟨.char, .char⟩
instance : Outcome Float := ⟨.float64, .float64⟩
instance : Outcome String := ⟨.string, .string⟩
instance : Outcome Value := ⟨.object, id⟩
instance : Outcome Unit := ⟨.void, fun _ => .void⟩

/-- A function whose arguments can be taken from values and whose result becomes one. -/
class Typed (φ : Type) where
  parameters : List Ty
  returnType : Ty
  /-- Runs the function on values.  All of them are taken before it runs. -/
  apply : φ → List Value → Act Value

instance {β : Type} [Outcome β] : Typed (Act β) where
  parameters := []
  returnType := Outcome.type β
  apply result _ := return Outcome.give (← result)

instance {α φ : Type} [Argument α] [Typed φ] : Typed (α → φ) where
  parameters := Argument.type α :: Typed.parameters φ
  returnType := Typed.returnType φ
  apply f
    | value :: rest => do Typed.apply (f (← Argument.take value)) rest
    | [] => Act.fault .stackUnderflow

/-- The delegate that a function stands for. -/
def Delegate.ofFunction {φ : Type} [Typed φ] (f : φ) : Delegate where
  signature := Delegate.shape (Typed.parameters φ) (Typed.returnType φ)
  body arguments _ := Typed.apply f arguments

end Interpose
