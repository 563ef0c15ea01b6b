import CilWeave.Text.Radix

/-
Metadata tokens. A token names a row of one of the module's tables: the high
byte selects the table and the low 24 bits hold the row, counted from one. Row
zero names nothing, so `Token.index?` is partial.
-/

namespace CilWeave

/-- The tables a token can point into. -/
inductive Table where
  /-- Type definitions of the module. -/
  | typeDef
  /-- Field definitions of the module. -/
  | field
  /-- Method definitions of the module. -/
  | methodDef
  /-- Imported method and field references. -/
  | memberRef
  /-- Generic method instantiations. -/
  | methodSpec
  deriving DecidableEq, Repr, Inhabited

namespace Table

/-- The tables in the order of their bytes. -/
def all : List Table := [.typeDef, .field, .methodDef, .memberRef, .methodSpec]

/-- The byte that selects the table in a token. -/
def byte : Table → UInt8
  | .typeDef => 0x02
  | .field => 0x04
  | .methodDef => 0x06
  | .memberRef => 0x0A
  | .methodSpec => 0x2B

def name : Table → String
  | .typeDef => "TypeDef"
  | .field => "Field"
  | .methodDef => "MethodDef"
  | .memberRef => "MemberRef"
  | .methodSpec => "MethodSpec"

/-- The table selected by a byte, if it is one of these. -/
def ofByte? (byte : UInt8) : Option Table := all.find? (·.byte == byte)

end Table

/-- A metadata token. -/
structure Token where
  /-- The raw value. -/
  value : UInt32
  deriving DecidableEq, Repr, Inhabited

namespace Token

/-- The token of a row of `table`; only the low 24 bits of the row are kept. -/
def ofRow (table : Table) (row : UInt32) : Token :=
  ⟨(table.byte.toUInt32 <<< 24) ||| (row &&& 0x00FFFFFF)⟩

/-- The token of the entry stored at `index`, counted from zero. -/
def ofIndex (table : Table) (index : Nat) : Token :=
  ofRow table (UInt32.ofNat index + 1)

def tableByte (t : Token) : UInt8 := (t.value >>> 24).toUInt8

/-- The table the token points into, if it is a known one. -/
def table? (t : Token) : Option Table := Table.ofByte? t.tableByte

def isIn (t : Token) (table : Table) : Bool := t.tableByte == table.byte

def row (t : Token) : UInt32 := t.value &&& 0x00FFFFFF

/-- The storage index of the row, counted from zero. -/
def index? (t : Token) : Option Nat :=
  if t.row = 0 then none else some (t.row.toNat - 1)

/-- The storage index of the row if the token points into `table`. -/
def indexIn? (t : Token) (table : Table) : Option Nat :=
  if t.isIn table then t.index? else none

def isNull (t : Token) : Bool := t.value == 0

/-- The token as eight digits in base sixteen. -/
def text (t : Token) : String := "0x" ++ Radix.hexPadded 8 t.value.toNat

/-- The token with its table and row spelled out. -/
def debugText (t : Token) : String :=
  "Token(" ++ t.text ++ ", table: 0x" ++ Radix.hexPadded 2 t.tableByte.toNat
    ++ ", row: " ++ toString t.row.toNat ++ ")"

end Token

end CilWeave
