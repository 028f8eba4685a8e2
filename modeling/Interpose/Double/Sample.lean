import Interpose.Substitution.Typed

/-!
# Sample doubles

Small typed functions, by name, that serve as doubles.

## Main definitions

* `Sample.named?` — the function of a name, as a delegate
-/

namespace Interpose.Sample

/-- The number of bytes of a text. -/
def length (text : String) : Act Int32 := return Int32.ofNat text.utf8ByteSize

/-- The sum of two integers, which wraps around. -/
def add (a b : Int32) : Act Int32 := return a + b

/-- The integer after another one; the last is followed by the first. -/
def increment (n : Int64) : Act Int64 := return n + 1

/-- The other truth value. -/
def negation (b : Bool) : Act Bool := return !b

/-- A letter as a capital; other characters stay. -/
def upper (c : Char) : Act Char := return c.toUpper

/-- Half of a number. -/
def half (x : Float) : Act Float := return x / 2

/-- Does nothing. -/
def unit : Act Unit := return ()

/-- A greeting. -/
def hello : Act String := return "hello"

/-- Takes a text and does nothing. -/
def sink (_ : String) : Act Unit := return ()

/-- The value it is given. -/
def echo (value : Value) : Act Value := return value

/-- Whether a value is null. -/
def isNull (value : Value) : Act Bool := return value.isNull

/-- A text marked as not genuine. -/
def greet (name : String) : Act String := return "fake " ++ name

/-- Fails. -/
def fail : Act Int32 := throw (.substitute "nope")

/-- The text it is given, which must not be empty. -/
def nonempty (text : String) : Act String :=
  if text.isEmpty then throw (.substitute "empty") else return text

/-- The texts of three arguments. -/
def three (a : Int32) (b : String) (c : Bool) : Act String :=
  return "/".intercalate [toString a.toInt, b, if c then "true" else "false"]

/-- The texts of four arguments. -/
def four (a : Int32) (b : Int64) (c : Char) (d : String) : Act String :=
  return "/".intercalate [toString a.toInt, toString b.toInt, c.toString, d]

/-- The exclusive disjunction of five integers. -/
def five (a b c d e : Int32) : Act Int32 := return a ^^^ b ^^^ c ^^^ d ^^^ e

/-- Whether six truth values all hold. -/
def six (a b c d e f : Bool) : Act Bool := return a && b && c && d && e && f

/-- A person of the given name, marked as not genuine. -/
def person (name : String) : Act Value :=
  Act.newObject (.instance (.classType "Demo.Person") [("name", .string ("fake " ++ name))])

/-- The function of a name, as a delegate. -/
def named? : String → Option Delegate
  | "len" => some (.ofFunction length)
  | "add" => some (.ofFunction add)
  | "inc8" => some (.ofFunction increment)
  | "not" => some (.ofFunction negation)
  | "upper" => some (.ofFunction upper)
  | "half" => some (.ofFunction half)
  | "unit" => some (.ofFunction unit)
  | "hello" => some (.ofFunction hello)
  | "sink" => some (.ofFunction sink)
  | "echo" => some (.ofFunction echo)
  | "is_null" => some (.ofFunction isNull)
  | "greet" => some (.ofFunction greet)
  | "fail" => some (.ofFunction fail)
  | "nonempty" => some (.ofFunction nonempty)
  | "three" => some (.ofFunction three)
  | "four" => some (.ofFunction four)
  | "five" => some (.ofFunction five)
  | "six" => some (.ofFunction six)
  | "person" => some (.ofFunction person)
  | _ => none

end Interpose.Sample
