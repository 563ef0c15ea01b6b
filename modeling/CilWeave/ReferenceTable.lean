import CilWeave.Error
import CilWeave.Member

/-
The table of imported member references of one module.

Every method or field operand of an instruction is a token into this table.
Importing the same member twice gives the same token, so rewrites that emit many
calls of one accessor share a row. Rows are never changed or removed: a table
only grows at its end.
-/

namespace CilWeave

/-- The table a reference is filed under: instantiations of generic methods have
their own. -/
def MemberRef.table : MemberRef → Table
  | .method m => if m.isGenericInstantiation then .methodSpec else .memberRef
  | .field _ => .memberRef

/-- The interned member references of one module, in import order. -/
structure ReferenceTable where
  /-- The references, by row. -/
  entries : Array MemberRef
  /-- No reference occurs twice. -/
  nodup : entries.toList.Nodup

namespace ReferenceTable

def empty : ReferenceTable := ⟨#[], List.nodup_nil⟩

instance : Inhabited ReferenceTable := ⟨empty⟩

/-- How many references the table holds. -/
def size (table : ReferenceTable) : Nat := table.entries.size

/-- The references in import order. -/
def toList (table : ReferenceTable) : List MemberRef := table.entries.toList

def find? (table : ReferenceTable) (member : MemberRef) : Option Token :=
  (table.entries.findIdx? (· == member)).map (Token.ofIndex member.table)

theorem nodup_push {table : ReferenceTable} {member : MemberRef}
    (h : table.find? member = none) : (table.entries.push member).toList.Nodup := by
  have hnone := Array.findIdx?_eq_none_iff.mp (Option.map_eq_none_iff.mp h)
  rw [Array.toList_push, List.nodup_append]
  refine ⟨table.nodup, by simp, fun other hother last hlast heq => ?_⟩
  rw [heq, List.mem_singleton.mp hlast] at hother
  have hne := hnone member (Array.mem_toList_iff.mp hother)
  rw [beq_self_eq_true] at hne
  cases hne

/-- The token of a member, and the table with a new last row if the member was
not imported before. -/
def intern (table : ReferenceTable) (member : MemberRef) : Token × ReferenceTable :=
  match h : table.find? member with
  | some token => (token, table)
  | none => (Token.ofIndex member.table table.size, ⟨table.entries.push member, nodup_push h⟩)

theorem intern_of_some {table : ReferenceTable} {member : MemberRef} {token : Token}
    (h : table.find? member = some token) : table.intern member = (token, table) := by
  unfold intern
  split
  · rename_i found hfound
    rw [h] at hfound
    rw [Option.some.inj hfound]
  · rename_i hnone
    rw [h] at hnone
    cases hnone

theorem intern_of_none {table : ReferenceTable} {member : MemberRef}
    (h : table.find? member = none) : table.intern member =
      (Token.ofIndex member.table table.size, ⟨table.entries.push member, nodup_push h⟩) := by
  unfold intern
  split
  · rename_i found hfound
    rw [h] at hfound
    cases hfound
  · rfl

/-- The table of the members of a list, imported in order. A member that occurs
again is dropped, and the rows after it move up. -/
def ofList (members : List MemberRef) : ReferenceTable :=
  members.foldl (fun table member => (table.intern member).2) empty

/-- The reference a token names. -/
def get (table : ReferenceTable) (token : Token) : Except Error MemberRef :=
  if token.isIn .memberRef || token.isIn .methodSpec then
    match token.index?.bind (table.entries[·]?) with
    | some member => .ok member
    | none => .error (.unresolvedToken token)
  else .error (.unresolvedToken token)

def method (table : ReferenceTable) (token : Token) : Except Error MethodRef :=
  match table.get token with
  | .ok (.method m) => .ok m
  | .ok (.field _) => .error (.unresolvedToken token)
  | .error e => .error e

def field (table : ReferenceTable) (token : Token) : Except Error FieldRef :=
  match table.get token with
  | .ok (.field f) => .ok f
  | .ok (.method _) => .error (.unresolvedToken token)
  | .error e => .error e

/-- The references with their tokens, in import order. -/
def tokens (table : ReferenceTable) : List (Token × MemberRef) :=
  table.toList.mapIdx fun index member => (Token.ofIndex member.table index, member)

end ReferenceTable

end CilWeave
