import Interpose.Code.Opcode
import Interpose.Value.Basic

/-!
# Arithmetic on values

Operations on two values are those of the wider kind among them: doubles, then long integers, then
short ones.  Integers wrap around.

## Main definitions

* `binary`, `unary`, `convert` — the operations
* `Comparison.holds?` — comparisons, which fall back to identity where no order applies
-/

namespace Interpose

/-- Why an operation on values has no result. -/
inductive ArithmeticProblem where
  /-- The values are not of a kind the operation applies to. -/
  | mismatch
  /-- An integer is divided by zero. -/
  | divisionByZero
deriving DecidableEq, Repr

/-- Operations on two numbers. -/
inductive BinaryOperation where
  | add
  | sub
  | mul
  | div
  | rem
  | and
  | or
  | xor
deriving DecidableEq, Repr

namespace BinaryOperation

/-- The operation on doubles. -/
def onFloat (op : BinaryOperation) (a b : Float) : Except ArithmeticProblem Float :=
  match op with
  | add => return a + b
  | sub => return a - b
  | mul => return a * b
  | div => return a / b
  | rem => return Number.floatRemainder a b
  | .and | .or | xor => throw .mismatch

/-- The operation on long integers. -/
def onInt64 (op : BinaryOperation) (a b : Int64) : Except ArithmeticProblem Int64 :=
  match op with
  | add => return a + b
  | sub => return a - b
  | mul => return a * b
  | div => if b = 0 then throw .divisionByZero else return a / b
  | rem => if b = 0 then throw .divisionByZero else return a % b
  | .and => return a &&& b
  | .or => return a ||| b
  | xor => return a ^^^ b

/-- The operation on short integers. -/
def onInt32 (op : BinaryOperation) (a b : Int32) : Except ArithmeticProblem Int32 :=
  match op with
  | add => return a + b
  | sub => return a - b
  | mul => return a * b
  | div => if b = 0 then throw .divisionByZero else return a / b
  | rem => if b = 0 then throw .divisionByZero else return a % b
  | .and => return a &&& b
  | .or => return a ||| b
  | xor => return a ^^^ b

end BinaryOperation

namespace Value

/-- Whether the value is a double. -/
def isFloat : Value → Bool
  | float64 _ => true
  | _ => false

/-- Whether the value is a long integer. -/
def isInt64 : Value → Bool
  | int64 _ => true
  | _ => false

/-- Applies a function to two values of which a view is defined. -/
def both {α : Type} (view : Value → Option α) (a b : Value) : Except ArithmeticProblem (α × α) :=
  match view a, view b with
  | some x, some y => return (x, y)
  | _, _ => throw .mismatch

/-- An operation on two values. -/
def binary (op : BinaryOperation) (a b : Value) : Except ArithmeticProblem Value := do
  if a.isFloat || b.isFloat then
    let (x, y) ← both asFloat? a b
    return float64 (← op.onFloat x y)
  else if a.isInt64 || b.isInt64 then
    let (x, y) ← both asInt64? a b
    return int64 (← op.onInt64 x y)
  else
    let (x, y) ← both asInt32? a b
    return int32 (← op.onInt32 x y)

/-- The negative of a value. -/
def negate : Value → Option Value
  | float64 value => some (float64 (-value))
  | int64 value => some (int64 (-value))
  | value => value.asInt32?.map fun n => int32 (-n)

/-- A value with all bits inverted. -/
def complement : Value → Option Value
  | int64 value => some (int64 (~~~ value))
  | value => value.asInt32?.map fun n => int32 (~~~ n)

/-- A value as a short integer: integers lose their high bits, doubles are cut toward zero and end
at the least and the greatest integer. -/
def toInt32? : Value → Option Value
  | float64 value => some (int32 value.toInt32)
  | value => value.asInt64?.map fun n => int32 n.toInt32

/-- A value as a long integer. -/
def toInt64? : Value → Option Value
  | float64 value => some (int64 value.toInt64)
  | value => value.asInt64?.map int64

/-- A value as a double. -/
def toFloat64? (value : Value) : Option Value := value.asFloat?.map float64

end Value

/-- Comparisons of two values. -/
inductive Comparison where
  | eq
  | ne
  | gt
  | ge
  | lt
  | le
deriving DecidableEq, Repr

namespace Comparison

/-- The comparison of doubles; every comparison with something that is not a number fails, except
that it differs. -/
def onFloat (c : Comparison) (a b : Float) : Bool :=
  match c with
  | eq => a == b
  | ne => !(a == b)
  | gt => b < a
  | ge => b < a || a == b
  | lt => a < b
  | le => a < b || a == b

/-- The comparison of integers. -/
def onInt64 (c : Comparison) (a b : Int64) : Bool :=
  match c with
  | eq => a = b
  | ne => a ≠ b
  | gt => b < a
  | ge => b ≤ a
  | lt => a < b
  | le => a ≤ b

/-- The comparison of values without order. -/
def onIdentity? (c : Comparison) (a b : Value) : Option Bool :=
  match c with
  | eq => some (a.same b)
  | ne => some (!a.same b)
  | _ => none

/-- The comparison of values, if there is one. -/
def holds? (c : Comparison) (a b : Value) : Option Bool :=
  if a.isFloat || b.isFloat then
    match a.asFloat?, b.asFloat? with
    | some x, some y => some (c.onFloat x y)
    | _, _ => c.onIdentity? a b
  else
    match a.asInt64?, b.asInt64? with
    | some x, some y => some (c.onInt64 x y)
    | _, _ => c.onIdentity? a b

end Comparison

end Interpose
