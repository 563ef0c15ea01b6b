import CilWeave.Document.Members
import CilWeave.Proofs.Document.Reading

/-
Tokens, signatures and member references are read back from their documents.

None of them holds a number that has no document form, so each has an equation: reading what was
written gives the value (`TypeSig.ofJson_toJson` to `MemberRef.ofJson_toJson`).
-/

namespace CilWeave

open Document

@[simp] theorem Token.ofJson_toJson (t : Token) : ofJson t.toJson = .ok t := by
  rw [ofJson, toJson, uint32_nat]
  rfl

@[simp] theorem InstrId.ofJson_toJson (id : InstrId) : ofJson id.toJson = .ok id := by
  have hslot : uint32 (.nat id.slot) = .ok id.index := uint32_nat id.index
  rw [ofJson, toJson, hslot]
  rfl

namespace TypeSig

theorem allToJson_eq_map : ∀ ts : List TypeSig, allToJson ts = ts.map toJson
  | [] => rfl
  | t :: ts => by rw [allToJson, allToJson_eq_map ts, List.map_cons]

mutual

@[simp] theorem ofJson_toJson : ∀ t : TypeSig, ofJson t.toJson = .ok t
  | .primitive p => by
    rw [toJson, ofJson, Primitive.ofName?_name]
    rfl
  | .ofClass name => rfl
  | .valueType name => rfl
  | .szArray element => by
    show (ofJson element.toJson).map szArray = _
    rw [ofJson_toJson element]
    rfl
  | .byRef element => by
    show (ofJson element.toJson).map byRef = _
    rw [ofJson_toJson element]
    rfl
  | .genericInst base args => by
    have hbase := ofJson_toJson base
    have hargs := allOfJson_allToJson args
    simp [toJson, tagged, Json.record, ofJson, genericOfJson, hbase, hargs]
  | .var index => by
    show (uint32 (.nat index.toNat)).map var = _
    rw [uint32_nat]
    rfl
  | .mvar index => by
    show (uint32 (.nat index.toNat)).map mvar = _
    rw [uint32_nat]
    rfl

theorem allOfJson_allToJson : ∀ ts : List TypeSig, allOfJson (allToJson ts) = .ok ts
  | [] => rfl
  | t :: ts => by
    rw [allToJson, allOfJson, ofJson_toJson t, allOfJson_allToJson ts]
    rfl

end

@[simp] theorem list_allToJson (ts : List TypeSig) :
    list ofJson (.array (allToJson ts)) = .ok ts := by
  rw [allToJson_eq_map]
  exact list_ofList ofJson_toJson ts

theorem toJson_ne_null (t : TypeSig) : t.toJson ≠ .null := by
  cases t <;> simp [toJson, tagged, Json.record]

end TypeSig

@[simp] theorem MethodSig.ofJson_toJson (sig : MethodSig) : ofJson sig.toJson = .ok sig := by
  have hfields : record ["has_this", "return_type", "parameters", "generic_parameter_count"] 0
      readField ⟨none, none, none, none⟩ sig.toJson =
      .ok ⟨some sig.hasThis, some sig.returnType, some sig.parameters,
        some sig.genericParameterCount⟩ := calc
    _ = _ := record_cons rfl rfl (bool_bool _)
    _ = _ := record_cons rfl rfl (TypeSig.ofJson_toJson _)
    _ = _ := record_cons rfl rfl (TypeSig.list_allToJson _)
    _ = _ := record_cons rfl rfl (uint32_nat _)
  rw [ofJson, hfields]
  rfl

@[simp] theorem MethodRef.ofJson_toJson (m : MethodRef) : ofJson m.toJson = .ok m := by
  have hfields : record ["declaring_type", "name", "signature", "generic_arguments"] 0
      readField ⟨none, none, none, none⟩ m.toJson =
      .ok ⟨some m.declaringType, some m.name, some m.signature, some m.genericArguments⟩ := calc
    _ = _ := record_cons rfl rfl (TypeSig.ofJson_toJson _)
    _ = _ := record_cons rfl rfl (string_string _)
    _ = _ := record_cons rfl rfl (MethodSig.ofJson_toJson _)
    _ = _ := record_cons rfl rfl (TypeSig.list_allToJson _)
  rw [ofJson, hfields]
  rfl

@[simp] theorem FieldRef.ofJson_toJson (f : FieldRef) : ofJson f.toJson = .ok f := by
  have hfields : record ["declaring_type", "name", "field_type"] 0 readField ⟨none, none, none⟩
      f.toJson = .ok ⟨some f.declaringType, some f.name, some f.fieldType⟩ := calc
    _ = _ := record_cons rfl rfl (TypeSig.ofJson_toJson _)
    _ = _ := record_cons rfl rfl (string_string _)
    _ = _ := record_cons rfl rfl (TypeSig.ofJson_toJson _)
  rw [ofJson, hfields]
  rfl

@[simp] theorem MemberRef.ofJson_toJson (member : MemberRef) :
    ofJson member.toJson = .ok member := by
  cases member with
  | method m =>
    show (MethodRef.ofJson m.toJson).map method = _
    rw [MethodRef.ofJson_toJson]
    rfl
  | field f =>
    show (FieldRef.ofJson f.toJson).map field = _
    rw [FieldRef.ofJson_toJson]
    rfl

end CilWeave
