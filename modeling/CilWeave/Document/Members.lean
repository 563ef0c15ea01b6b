import CilWeave.Document.Reading
import CilWeave.ReferenceTable

/-
The document form of tokens, signatures and member references.
-/

namespace CilWeave

open Document

def Token.toJson (t : Token) : Json := .nat t.value.toNat

def Token.ofJson (j : Json) : Read Token := (uint32 j).map Token.mk

def InstrId.toJson (id : InstrId) : Json := .nat id.slot

def InstrId.ofJson (j : Json) : Read InstrId := (uint32 j).map InstrId.mk

namespace TypeSig

mutual

/-- A primitive type is its short name; every other type is tagged. -/
def toJson : TypeSig → Json
  | .primitive p => .string p.name
  | .ofClass name => tagged "Class" (.string name)
  | .valueType name => tagged "ValueType" (.string name)
  | .szArray element => tagged "SzArray" element.toJson
  | .byRef element => tagged "ByRef" element.toJson
  | .genericInst base args =>
    tagged "GenericInst" (.record [("base", base.toJson), ("args", .array (allToJson args))])
  | .var index => tagged "Var" (.nat index.toNat)
  | .mvar index => tagged "MVar" (.nat index.toNat)

def allToJson : List TypeSig → List Json
  | [] => []
  | t :: ts => t.toJson :: allToJson ts

end

mutual

/-- A type from its document. -/
def ofJson : Json → Read TypeSig
  | .string name => (orMisshapen (Primitive.ofName? name)).map .primitive
  | .object [(some "Class", j)] => (Document.string j).map .ofClass
  | .object [(some "ValueType", j)] => (Document.string j).map .valueType
  | .object [(some "SzArray", j)] => (ofJson j).map .szArray
  | .object [(some "ByRef", j)] => (ofJson j).map .byRef
  | .object [(some "GenericInst", .object entries)] => genericOfJson none none entries
  | .object [(some "GenericInst", .array [base, .array args])] =>
    match ofJson base with
    | .ok base => (allOfJson args).map (.genericInst base)
    | .error fault => .error fault
  | .object [(some "Var", j)] => (uint32 j).map .var
  | .object [(some "MVar", j)] => (uint32 j).map .mvar
  | .object [(some name, .null)] => (orMisshapen (Primitive.ofName? name)).map .primitive
  | _ => misshapen

/-- Types from their documents. -/
def allOfJson : List Json → Read (List TypeSig)
  | [] => .ok []
  | j :: js =>
    match ofJson j with
    | .ok t => (allOfJson js).map (t :: ·)
    | .error fault => .error fault

/-- A generic type from the members of its object, after a base and arguments that
were read before. -/
def genericOfJson (base : Option TypeSig) (args : Option (List TypeSig)) :
    List (Option String × Json) → Read TypeSig
  | [] =>
    match base, args with
    | some base, some args => .ok (.genericInst base args)
    | _, _ => misshapen
  | (none, _) :: _ => misshapen
  | (some "base", j) :: rest =>
    match base, ofJson j with
    | none, .ok t => genericOfJson (some t) args rest
    | none, .error fault => .error fault
    | some _, _ => misshapen
  | (some "args", .array js) :: rest =>
    match args, allOfJson js with
    | none, .ok ts => genericOfJson base (some ts) rest
    | none, .error fault => .error fault
    | some _, _ => misshapen
  | (some "args", _) :: _ => misshapen
  | (some _, j) :: rest => if j.isWhole then genericOfJson base args rest else misshapen

end

end TypeSig

/-! Signatures. -/

namespace MethodSig

/-- A signature with the fields read so far. -/
structure Fields where
  hasThis : Option Bool
  returnType : Option TypeSig
  parameters : Option (List TypeSig)
  genericParameterCount : Option UInt32

def toJson (sig : MethodSig) : Json :=
  .record [("has_this", .bool sig.hasThis), ("return_type", sig.returnType.toJson),
    ("parameters", .array (TypeSig.allToJson sig.parameters)),
    ("generic_parameter_count", .nat sig.genericParameterCount.toNat)]

def readField (f : Fields) : String → Json → Read Fields
  | "has_this", j => (once f.hasThis bool j).map ({ f with hasThis := · })
  | "return_type", j => (once f.returnType TypeSig.ofJson j).map ({ f with returnType := · })
  | "parameters", j =>
    (once f.parameters (list TypeSig.ofJson) j).map ({ f with parameters := · })
  | _, j =>
    (once f.genericParameterCount uint32 j).map ({ f with genericParameterCount := · })

def ofJson (j : Json) : Read MethodSig := do
  let f ← record ["has_this", "return_type", "parameters", "generic_parameter_count"] 0
    readField ⟨none, none, none, none⟩ j
  complete (do some ⟨← f.hasThis, ← f.returnType, ← f.parameters, ← f.genericParameterCount⟩)

end MethodSig

namespace MethodRef

/-- A method reference with the fields read so far. -/
structure Fields where
  declaringType : Option TypeSig
  name : Option String
  signature : Option MethodSig
  genericArguments : Option (List TypeSig)

def toJson (m : MethodRef) : Json :=
  .record [("declaring_type", m.declaringType.toJson), ("name", .string m.name),
    ("signature", m.signature.toJson),
    ("generic_arguments", .array (TypeSig.allToJson m.genericArguments))]

/-- One more field of a method reference. -/
def readField (f : Fields) : String → Json → Read Fields
  | "declaring_type", j =>
    (once f.declaringType TypeSig.ofJson j).map ({ f with declaringType := · })
  | "name", j => (once f.name string j).map ({ f with name := · })
  | "signature", j => (once f.signature MethodSig.ofJson j).map ({ f with signature := · })
  | _, j =>
    (once f.genericArguments (list TypeSig.ofJson) j).map ({ f with genericArguments := · })

def ofJson (j : Json) : Read MethodRef := do
  let f ← record ["declaring_type", "name", "signature", "generic_arguments"] 0
    readField ⟨none, none, none, none⟩ j
  complete (do some ⟨← f.declaringType, ← f.name, ← f.signature, ← f.genericArguments⟩)

end MethodRef

namespace FieldRef

/-- A field reference with the fields read so far. -/
structure Fields where
  declaringType : Option TypeSig
  name : Option String
  fieldType : Option TypeSig

def toJson (f : FieldRef) : Json :=
  .record [("declaring_type", f.declaringType.toJson), ("name", .string f.name),
    ("field_type", f.fieldType.toJson)]

def readField (f : Fields) : String → Json → Read Fields
  | "declaring_type", j =>
    (once f.declaringType TypeSig.ofJson j).map ({ f with declaringType := · })
  | "name", j => (once f.name string j).map ({ f with name := · })
  | _, j => (once f.fieldType TypeSig.ofJson j).map ({ f with fieldType := · })

def ofJson (j : Json) : Read FieldRef := do
  let f ← record ["declaring_type", "name", "field_type"] 0 readField ⟨none, none, none⟩ j
  complete (do some ⟨← f.declaringType, ← f.name, ← f.fieldType⟩)

end FieldRef

namespace MemberRef

def toJson : MemberRef → Json
  | .method m => tagged "Method" m.toJson
  | .field f => tagged "Field" f.toJson

def ofJson (j : Json) : Read MemberRef := do
  match ← form j with
  | ("Method", j) => (withValue MethodRef.ofJson j).map .method
  | ("Field", j) => (withValue FieldRef.ofJson j).map .field
  | _ => misshapen

end MemberRef

namespace ReferenceTable

def toJson (table : ReferenceTable) : Json := .ofList MemberRef.toJson table.toList

/-- A table from the list of its references. A reference that occurs again is
dropped. -/
def ofJson (j : Json) : Read ReferenceTable := (list MemberRef.ofJson j).map ofList

end ReferenceTable

end CilWeave
