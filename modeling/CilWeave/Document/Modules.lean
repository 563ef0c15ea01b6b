import CilWeave.Document.Code
import CilWeave.Json.Parser
import CilWeave.Module.Basic

/-
The document form of modules.

A module document is the JSON text of a module. Nothing but white space may
follow it. A fault inside the document comes before one behind it.
-/

namespace CilWeave

open Document

namespace TypeDef

/-- A type definition with the fields read so far. -/
structure Fields where
  token : Option Token
  nameSpace : Option String
  name : Option String
  flags : Option Nat
  enclosing : Option (Option Token)
  nestedTypes : Option (List Token)
  fields : Option (List Token)
  methods : Option (List Token)

def toJson (t : TypeDef) : Json :=
  .record [("token", t.token.toJson), ("namespace", .string t.nameSpace),
    ("name", .string t.name), ("flags", TypeFlags.names.toJson t.flags.bits.toNat),
    ("enclosing", .ofOption Token.toJson t.enclosing),
    ("nested_types", .ofList Token.toJson t.nestedTypes.toList),
    ("fields", .ofList Token.toJson t.fields.toList),
    ("methods", .ofList Token.toJson t.methods.toList)]

/-- One more field of a type definition. -/
def readField (f : Fields) : String → Json → Read Fields
  | "token", j => (once f.token Token.ofJson j).map ({ f with token := · })
  | "namespace", j => (once f.nameSpace Document.string j).map ({ f with nameSpace := · })
  | "name", j => (once f.name Document.string j).map ({ f with name := · })
  | "flags", j => (once f.flags TypeFlags.names.ofJson j).map ({ f with flags := · })
  | "enclosing", j =>
    (once f.enclosing (nullable Token.ofJson) j).map ({ f with enclosing := · })
  | "nested_types", j =>
    (once f.nestedTypes (list Token.ofJson) j).map ({ f with nestedTypes := · })
  | "fields", j => (once f.fields (list Token.ofJson) j).map ({ f with fields := · })
  | _, j => (once f.methods (list Token.ofJson) j).map ({ f with methods := · })

def ofJson (j : Json) : Read TypeDef := do
  let f ← record
    ["token", "namespace", "name", "flags", "enclosing", "nested_types", "fields", "methods"]
    0 readField ⟨none, none, none, none, none, none, none, none⟩ j
  complete (do
    some ⟨← f.token, ← f.nameSpace, ← f.name, ⟨UInt32.ofNat (← f.flags)⟩, f.enclosing.join,
      (← f.nestedTypes).toArray, (← f.fields).toArray, (← f.methods).toArray⟩)

end TypeDef

namespace FieldDef

/-- A field definition with the fields read so far. -/
structure Fields where
  token : Option Token
  declaringType : Option Token
  name : Option String
  fieldType : Option TypeSig
  flags : Option Nat
  customAttributes : Option (List String)

def toJson (f : FieldDef) : Json :=
  .record [("token", f.token.toJson), ("declaring_type", f.declaringType.toJson),
    ("name", .string f.name), ("field_type", f.fieldType.toJson),
    ("flags", FieldFlags.names.toJson f.flags.bits.toNat),
    ("custom_attributes", .ofList .string f.customAttributes)]

def readField (f : Fields) : String → Json → Read Fields
  | "token", j => (once f.token Token.ofJson j).map ({ f with token := · })
  | "declaring_type", j =>
    (once f.declaringType Token.ofJson j).map ({ f with declaringType := · })
  | "name", j => (once f.name Document.string j).map ({ f with name := · })
  | "field_type", j => (once f.fieldType TypeSig.ofJson j).map ({ f with fieldType := · })
  | "flags", j => (once f.flags FieldFlags.names.ofJson j).map ({ f with flags := · })
  | _, j =>
    (once f.customAttributes (list Document.string) j).map ({ f with customAttributes := · })

/-- A field definition from its document; it has no attributes unless some are
given. -/
def ofJson (j : Json) : Read FieldDef := do
  let f ← record
    ["token", "declaring_type", "name", "field_type", "flags", "custom_attributes"]
    1 readField ⟨none, none, none, none, none, none⟩ j
  complete (do
    some ⟨← f.token, ← f.declaringType, ← f.name, ← f.fieldType,
      ⟨UInt16.ofNat (← f.flags)⟩, f.customAttributes.getD []⟩)

end FieldDef

namespace MethodDef

/-- A method definition with the fields read so far. -/
structure Fields where
  token : Option Token
  declaringType : Option Token
  name : Option String
  flags : Option Nat
  signature : Option MethodSig
  body : Option (Option MethodBody)

def toJson (m : MethodDef) : Json :=
  .record [("token", m.token.toJson), ("declaring_type", m.declaringType.toJson),
    ("name", .string m.name), ("flags", MethodFlags.names.toJson m.flags.bits.toNat),
    ("signature", m.signature.toJson), ("body", .ofOption MethodBody.toJson m.body)]

/-- One more field of a method definition. -/
def readField (f : Fields) : String → Json → Read Fields
  | "token", j => (once f.token Token.ofJson j).map ({ f with token := · })
  | "declaring_type", j =>
    (once f.declaringType Token.ofJson j).map ({ f with declaringType := · })
  | "name", j => (once f.name Document.string j).map ({ f with name := · })
  | "flags", j => (once f.flags MethodFlags.names.ofJson j).map ({ f with flags := · })
  | "signature", j => (once f.signature MethodSig.ofJson j).map ({ f with signature := · })
  | _, j => (once f.body (nullable MethodBody.ofJson) j).map ({ f with body := · })

def ofJson (j : Json) : Read MethodDef := do
  let f ← record ["token", "declaring_type", "name", "flags", "signature", "body"] 0
    readField ⟨none, none, none, none, none, none⟩ j
  complete (do
    some ⟨← f.token, ← f.declaringType, ← f.name, ⟨UInt16.ofNat (← f.flags)⟩,
      ← f.signature, f.body.join⟩)

end MethodDef

namespace Module

/-- A module with the fields read so far. -/
structure Fields where
  name : Option String
  types : Option (List TypeDef)
  fields : Option (List FieldDef)
  methods : Option (List MethodDef)
  references : Option ReferenceTable

def toJson (m : Module) : Json :=
  .record [("name", .string m.name), ("types", .ofList TypeDef.toJson m.types.toList),
    ("fields", .ofList FieldDef.toJson m.fields.toList),
    ("methods", .ofList MethodDef.toJson m.methods.toList),
    ("references", m.references.toJson)]

def readField (f : Fields) : String → Json → Read Fields
  | "name", j => (once f.name Document.string j).map ({ f with name := · })
  | "types", j => (once f.types (list TypeDef.ofJson) j).map ({ f with types := · })
  | "fields", j => (once f.fields (list FieldDef.ofJson) j).map ({ f with fields := · })
  | "methods", j => (once f.methods (list MethodDef.ofJson) j).map ({ f with methods := · })
  | _, j => (once f.references ReferenceTable.ofJson j).map ({ f with references := · })

def ofJson (j : Json) : Read Module := do
  let f ← record ["name", "types", "fields", "methods", "references"] 0 readField
    ⟨none, none, none, none, none⟩ j
  complete (do
    some ⟨← f.name, (← f.types).toArray, (← f.fields).toArray, (← f.methods).toArray,
      ← f.references⟩)

def parse (text : List UInt8) : Read Module := do
  let (j, ended) := Json.parse text
  let m ← ofJson j
  if ended then .ok m else misshapen

end Module

end CilWeave
