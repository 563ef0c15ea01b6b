import CilWeave.Document.Modules
import CilWeave.Proofs.Document.Code
import CilWeave.Proofs.References.Interning

/-
Modules are read back from their documents.

A table of references is written as the list of its rows, and imported anew it has the same rows,
as no reference stands twice. So a module is read back, in every field, exactly if its constants
are finite (`Module.ofJson_toJson_iff`).
-/

namespace CilWeave

open Document

theorem TypeFlags.readable_names : TypeFlags.names.Readable := ⟨by decide, by decide, by decide⟩

theorem FieldFlags.readable_names : FieldFlags.names.Readable := ⟨by decide, by decide, by decide⟩

theorem MethodFlags.readable_names : MethodFlags.names.Readable :=
  ⟨by decide, by decide, by decide⟩

theorem Token.nullable_ofOption (t : Option Token) :
    nullable Token.ofJson (.ofOption Token.toJson t) = .ok t :=
  Document.nullable_ofOption nofun Token.ofJson_toJson t

theorem Token.list_ofArray (ts : Array Token) :
    list Token.ofJson (.ofList Token.toJson ts.toList) = .ok ts.toList :=
  list_ofList Token.ofJson_toJson ts.toList

theorem TypeDef.ofJson_toJson (t : TypeDef) : ofJson t.toJson = .ok t := by
  have hflags : TypeFlags.names.ofJson (TypeFlags.names.toJson t.flags.bits.toNat) =
      .ok t.flags.bits.toNat :=
    FlagNames.ofJson_toJson TypeFlags.readable_names t.flags.bits.toNat_lt
  have hfields : record
      ["token", "namespace", "name", "flags", "enclosing", "nested_types", "fields", "methods"]
      0 readField ⟨none, none, none, none, none, none, none, none⟩ t.toJson =
      .ok ⟨some t.token, some t.nameSpace, some t.name, some t.flags.bits.toNat,
        some t.enclosing, some t.nestedTypes.toList, some t.fields.toList,
        some t.methods.toList⟩ := calc
    _ = _ := record_cons rfl rfl t.token.ofJson_toJson
    _ = _ := record_cons rfl rfl (string_string t.nameSpace)
    _ = _ := record_cons rfl rfl (string_string t.name)
    _ = _ := record_cons rfl rfl hflags
    _ = _ := record_cons rfl rfl (Token.nullable_ofOption t.enclosing)
    _ = _ := record_cons rfl rfl (Token.list_ofArray t.nestedTypes)
    _ = _ := record_cons rfl rfl (Token.list_ofArray t.fields)
    _ = _ := record_cons rfl rfl (Token.list_ofArray t.methods)
  rw [ofJson, hfields]
  show Except.ok { t with flags := ⟨UInt32.ofNat t.flags.bits.toNat⟩ } = Except.ok t
  rw [UInt32.ofNat_toNat]

theorem FieldDef.ofJson_toJson (f : FieldDef) : ofJson f.toJson = .ok f := by
  have hflags : FieldFlags.names.ofJson (FieldFlags.names.toJson f.flags.bits.toNat) =
      .ok f.flags.bits.toNat :=
    FlagNames.ofJson_toJson FieldFlags.readable_names f.flags.bits.toNat_lt
  have hfields : record
      ["token", "declaring_type", "name", "field_type", "flags", "custom_attributes"]
      1 readField ⟨none, none, none, none, none, none⟩ f.toJson =
      .ok ⟨some f.token, some f.declaringType, some f.name, some f.fieldType,
        some f.flags.bits.toNat, some f.customAttributes⟩ := calc
    _ = _ := record_cons rfl rfl f.token.ofJson_toJson
    _ = _ := record_cons rfl rfl f.declaringType.ofJson_toJson
    _ = _ := record_cons rfl rfl (string_string f.name)
    _ = _ := record_cons rfl rfl f.fieldType.ofJson_toJson
    _ = _ := record_cons rfl rfl hflags
    _ = _ := record_cons rfl rfl (list_ofList string_string f.customAttributes)
  rw [ofJson, hfields]
  show Except.ok { f with flags := ⟨UInt16.ofNat f.flags.bits.toNat⟩ } = Except.ok f
  rw [UInt16.ofNat_toNat]

namespace MethodDef

/-- Whether the constants of the body are finite. -/
def IsFinite (m : MethodDef) : Prop := ∀ body ∈ m.body, body.code.IsFinite

/-- A method is read back exactly if the constants of its body are finite. -/
theorem reads_toJson (m : MethodDef) :
    Reads (ofJson m.toJson) m m.IsFinite := by
  have hflags : MethodFlags.names.ofJson (MethodFlags.names.toJson m.flags.bits.toNat) =
      .ok m.flags.bits.toNat :=
    FlagNames.ofJson_toJson MethodFlags.readable_names m.flags.bits.toNat_lt
  have hfields : Reads
      (record ["token", "declaring_type", "name", "flags", "signature", "body"] 0
        readField ⟨none, none, none, none, none, none⟩ m.toJson)
      ⟨some m.token, some m.declaringType, some m.name, some m.flags.bits.toNat,
        some m.signature, some m.body⟩
      m.IsFinite := by
    refine .of_step (record_cons rfl rfl m.token.ofJson_toJson) ?_
    refine .of_step (record_cons rfl rfl m.declaringType.ofJson_toJson) ?_
    refine .of_step (record_cons rfl rfl (string_string m.name)) ?_
    refine .of_step (record_cons rfl rfl hflags) ?_
    refine .of_step (record_cons rfl rfl m.signature.ofJson_toJson) ?_
    have hbody : Reads (nullable MethodBody.ofJson (.ofOption MethodBody.toJson m.body)) m.body
        m.IsFinite := .nullable nofun fun body _ => body.reads_toJson
    exact .record_cons rfl rfl hbody rfl
  refine hfields.bind ?_
  show Except.ok { m with flags := ⟨UInt16.ofNat m.flags.bits.toNat⟩ } = Except.ok m
  rw [UInt16.ofNat_toNat]

end MethodDef

namespace Module

/-- Whether every constant of the module is finite, also in detached slots. -/
def IsFinite (m : Module) : Prop := ∀ method ∈ m.methods, method.IsFinite

/-- A module is read back exactly if its constants are finite. -/
theorem reads_toJson (m : Module) : Reads (ofJson m.toJson) m m.IsFinite := by
  have hmethods : Reads (list MethodDef.ofJson (.ofList MethodDef.toJson m.methods.toList))
      m.methods.toList m.IsFinite := by
    have hlist := Reads.list fun method (_ : method ∈ m.methods.toList) => method.reads_toJson
    exact hlist.congr (by simp only [Array.mem_toList_iff, IsFinite])
  have hfields : Reads
      (record ["name", "types", "fields", "methods", "references"] 0 readField
        ⟨none, none, none, none, none⟩ m.toJson)
      ⟨some m.name, some m.types.toList, some m.fields.toList, some m.methods.toList,
        some m.references⟩
      m.IsFinite := by
    refine .of_step (record_cons rfl rfl (string_string m.name)) ?_
    refine .of_step (record_cons rfl rfl (list_ofList TypeDef.ofJson_toJson m.types.toList)) ?_
    refine .of_step (record_cons rfl rfl (list_ofList FieldDef.ofJson_toJson m.fields.toList)) ?_
    exact .record_cons rfl rfl hmethods (record_cons rfl rfl m.references.ofJson_toJson)
  exact hfields.bind rfl

theorem not_isFinite_iff (m : Module) : ¬ m.IsFinite ↔
    ∃ method ∈ m.methods, ∃ body ∈ method.body, ∃ slot ∈ body.code.slots,
      ¬ slot.instruction.operand.IsFinite := by
  simp only [IsFinite, MethodDef.IsFinite, InstructionList.IsFinite, not_forall, exists_prop]

/-- A module is equal to the one read from its document exactly if no slot of its code, attached
or detached, holds a float that is infinite or no number. The document of a module with such a
float is refused. -/
theorem ofJson_toJson_iff (m : Module) :
    (ofJson m.toJson = .ok m ↔
      ∀ method ∈ m.methods, ∀ body ∈ method.body, ∀ slot ∈ body.code.slots,
        slot.instruction.operand.IsFinite) ∧
    ((∃ fault, ofJson m.toJson = .error fault) ↔
      ∃ method ∈ m.methods, ∃ body ∈ method.body, ∃ slot ∈ body.code.slots,
        ¬ slot.instruction.operand.IsFinite) := by
  have hreads : Reads (ofJson m.toJson) m m.IsFinite := m.reads_toJson
  refine ⟨hreads.ok_iff, ?_⟩
  rw [← m.not_isFinite_iff]
  exact hreads.error_iff

end Module

end CilWeave
