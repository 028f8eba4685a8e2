import Interpose.Text.Hex

/-!
# Metadata tokens

A token is a 32-bit word that names a row of a metadata table: the table in the high byte, the row
number, counted from one, in the other three.

## Main definitions

* `Table` — the tables a module has
* `Token` — the word, with its table, row and index
-/

namespace Interpose

/-- The metadata tables of a module. -/
inductive Table where
  | typeDef
  | field
  | methodDef
  | memberRef
  | typeSpec
  | methodSpec
  | userString
deriving DecidableEq, Repr, Inhabited

namespace Table

/-- Every table, in the order of their numbers. -/
def all : List Table :=
  [.typeDef, .field, .methodDef, .memberRef, .typeSpec, .methodSpec, .userString]

/-- The number of a table, the high byte of its tokens. -/
def number : Table → UInt8
  | typeDef => 0x02
  | field => 0x04
  | methodDef => 0x06
  | memberRef => 0x0A
  | typeSpec => 0x1B
  | methodSpec => 0x2B
  | userString => 0x70

/-- The name of a table. -/
def name : Table → String
  | typeDef => "TypeDef"
  | field => "Field"
  | methodDef => "MethodDef"
  | memberRef => "MemberRef"
  | typeSpec => "TypeSpec"
  | methodSpec => "MethodSpec"
  | userString => "UserString"

/-- The table with the given number. -/
def ofNumber? (number : UInt8) : Option Table :=
  all.find? (·.number = number)

/-- The table with the given name. -/
def ofName? (name : String) : Option Table :=
  all.find? (·.name = name)

/-- Different tables have different numbers. -/
theorem ofNumber?_number (table : Table) : ofNumber? table.number = some table := by
  cases table <;> rfl

end Table

/-- A reference to a row of a metadata table. -/
structure Token where
  value : UInt32
deriving DecidableEq, Repr, Inhabited

namespace Token

/-- The token of a row, of which the low three bytes are kept. -/
def ofRow (table : Table) (row : Nat) : Token :=
  ⟨UInt32.ofNat (table.number.toNat * 0x1000000 + row % 0x1000000)⟩

/-- The number of the table a token refers to, whether there is such a table or not. -/
def tableNumber (t : Token) : UInt8 := UInt8.ofNat (t.value.toNat / 0x1000000)

/-- The table a token refers to. -/
def table? (t : Token) : Option Table := Table.ofNumber? t.tableNumber

/-- The row number, counted from one; zero names no row. -/
def row (t : Token) : Nat := t.value.toNat % 0x1000000

/-- The position of the row in its table. -/
def index? (t : Token) : Option Nat := if t.row = 0 then none else some (t.row - 1)

/-- Whether the token is the null token. -/
def isNull (t : Token) : Bool := t.value = 0

/-- Whether the token refers to the given table. -/
def isIn (t : Token) (table : Table) : Bool := t.tableNumber = table.number

/-- The text of a token, all eight hexadecimal digits. -/
def text (t : Token) : String := "0x" ++ hexPadded 8 t.value.toNat

/-- The text of a token together with its parts. -/
def detail (t : Token) : String :=
  "Token(" ++ t.text ++ ", table: 0x" ++ hexPadded 2 t.tableNumber.toNat ++ ", row: " ++
    toString t.row ++ ")"

theorem row_ofRow (table : Table) (row : Nat) : (ofRow table row).row = row % 0x1000000 := by
  cases table <;> simp [ofRow, Token.row, Table.number] <;> omega

theorem tableNumber_ofRow (table : Table) (row : Nat) :
    (ofRow table row).tableNumber = table.number := by
  have h : row % 16777216 < 16777216 := Nat.mod_lt _ (by decide)
  apply UInt8.toNat_inj.mp
  cases table <;> simp [ofRow, Token.tableNumber, Table.number] <;> omega

end Token

end Interpose
