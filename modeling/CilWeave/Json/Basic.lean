/-
JSON documents as trees.

A tree can also say what is wrong with the text it came from, so that a document
is judged in the order in which it is read: `broken` stands where the text stops
being JSON, and `unreadable` for a value that is well formed but has no meaning
(a string that is no Unicode text, a number out of range, a container nested too
deep). An unreadable value may be skipped; a broken one may not.

Numbers keep what a reader can tell apart: an integer, or a float by its bits. A
float of 32 bits is kept as such, because it is written with fewer digits.
-/

namespace CilWeave

/-- A number of a document. -/
inductive Number where
  /-- An integer of at most 64 bits. -/
  | integer (value : Int)
  /-- A finite float of 64 bits, by its bits. -/
  | double (bits : UInt64)
  /-- A finite float of 32 bits, by its bits. -/
  | single (bits : UInt32)
  deriving DecidableEq, Repr, Inhabited

/-- A document. -/
inductive Json where
  /-- The value `null`. -/
  | null
  /-- A truth value. -/
  | bool (value : Bool)
  /-- A number. -/
  | number (value : Number)
  /-- A string. -/
  | string (value : String)
  /-- A sequence of values. -/
  | array (items : List Json)
  /-- Keyed values in the order of the text. A key that is no Unicode text is
  none. -/
  | object (members : List (Option String × Json))
  /-- A value that may be skipped but not read. -/
  | unreadable
  /-- The place where the text stops being JSON. -/
  | broken
  deriving Repr, Inhabited, BEq

namespace Json

def int (n : Int) : Json := .number (.integer n)

def nat (n : Nat) : Json := .number (.integer n)

/-- An object with these keys. -/
def record (members : List (String × Json)) : Json :=
  .object (members.map fun (key, value) => (some key, value))

def ofOption {α : Type} (write : α → Json) : Option α → Json
  | some a => write a
  | none => .null

def ofList {α : Type} (write : α → Json) (items : List α) : Json := .array (items.map write)

mutual

/-- Whether the text of the value is JSON to its end. -/
def isWhole : Json → Bool
  | .broken => false
  | .array items => areWhole items
  | .object members => membersWhole members
  | _ => true

def areWhole : List Json → Bool
  | [] => true
  | j :: js => j.isWhole && areWhole js

def membersWhole : List (Option String × Json) → Bool
  | [] => true
  | (_, j) :: js => j.isWhole && membersWhole js

end

mutual

/-- Whether the value and everything in it can be read. -/
def isReadable : Json → Bool
  | .broken | .unreadable => false
  | .array items => areReadable items
  | .object members => membersReadable members
  | _ => true

/-- Whether all values of a sequence can be read. -/
def areReadable : List Json → Bool
  | [] => true
  | j :: js => j.isReadable && areReadable js

/-- Whether all keys and values of an object can be read. -/
def membersReadable : List (Option String × Json) → Bool
  | [] => true
  | (key, j) :: js => key.isSome && j.isReadable && membersReadable js

end

def get? (key : String) : Json → Option Json
  | .object members => (members.find? (·.1 == some key)).map (·.2)
  | _ => none

def items? : Json → Option (List Json)
  | .array items => some items
  | _ => none

def string? : Json → Option String
  | .string s => some s
  | _ => none

def int? : Json → Option Int
  | .number (.integer n) => some n
  | _ => none

def bool? : Json → Option Bool
  | .bool b => some b
  | _ => none

/-! Objects as maps: the keys in order, the last value of each. -/

/-- The members in key order with one more, which replaces an older one of the
same key. -/
def insertSorted (key : String) (value : Json) :
    List (Option String × Json) → List (Option String × Json)
  | [] => [(some key, value)]
  | (some other, old) :: rest =>
    if key = other then (some key, value) :: rest
    else if key < other then (some key, value) :: (some other, old) :: rest
    else (some other, old) :: insertSorted key value rest
  | (none, old) :: rest => (none, old) :: insertSorted key value rest

mutual

/-- The document with the members of every object sorted by key; of equal keys
the last counts. -/
def sorted : Json → Json
  | .array items => .array (sortedAll items)
  | .object members => .object (sortedMembers members [])
  | j => j

def sortedAll : List Json → List Json
  | [] => []
  | j :: js => j.sorted :: sortedAll js

/-- The members sorted into those seen before. -/
def sortedMembers : List (Option String × Json) → List (Option String × Json) →
    List (Option String × Json)
  | [], seen => seen
  | (some key, j) :: rest, seen => sortedMembers rest (insertSorted key j.sorted seen)
  | (none, j) :: rest, seen => (none, j.sorted) :: sortedMembers rest seen

end

end Json

end CilWeave
