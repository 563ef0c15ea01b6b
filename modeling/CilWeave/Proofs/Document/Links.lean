import CilWeave.Proofs.Document.Modules
import CilWeave.Proofs.Module.FullName
import CilWeave.Proofs.Module.Levels
import CilWeave.Run.Session

/-
Modules from documents, whose types are linked in any way.

A document states which types a type lists and which one is around it, and reading it asks
nothing of these links (`Module.exists_document`). So what holds of the modules that were made
with the `add` functions does not hold of all that are read: a type may list another twice, or
itself. This says exactly when the enumeration ends, when it yields no type twice, and when a
type has a full name (`Module.walks_iff_links`).
-/

namespace CilWeave.Module

/-- Every table of types stands in a document that is read. -/
theorem exists_document (name : String) (types : Array TypeDef) :
    ∃ document, ofJson document = .ok ⟨name, types, #[], #[], .empty⟩ :=
  ⟨_, (reads_toJson ⟨name, types, #[], #[], .empty⟩).ok nofun⟩

theorem topRows_subset (m : Module) : m.topRows ⊆ List.range m.types.size :=
  List.filter_subset_self _

/-- Whatever links the types of a module have, a document with these types is read. The walk
over the rows ends exactly if no row that is reached comes back to itself, and it ends with no
row yielded twice exactly if the rows that are reached are listed once; where it ends, its types
are those of the enumeration. A type has a full name exactly if no type around it is around
itself. -/
theorem walks_iff_links (m : Module) :
    (∃ document, ofJson document = .ok ⟨m.name, m.types, #[], #[], .empty⟩) ∧
    ((∃ rows, Walk m.rowsIn m.topRows rows) ↔ Walk.Acyclic m.rowsIn m.topRows) ∧
    ((∃ rows, Walk m.rowsIn m.topRows rows ∧ rows.Nodup) ↔
      Walk.ListedOnce m.rowsIn m.topRows) ∧
    (∀ rows, Walk m.rowsIn m.topRows rows → m.allTypes = m.typesAt rows) ∧
    ∀ type : TypeDef, (∃ name, m.FullName type name) ↔ Walk.Acyclic m.around [type] := by
  have hrows : ∀ n k : Nat, k ∈ m.rowsIn n → k ∈ List.range m.types.size :=
    fun n _ hk => rowsIn_subset n hk
  refine ⟨exists_document m.name m.types, ?_, ?_, ?_, ?_⟩
  · exact Walk.exists_iff_acyclic hrows
  · exact Walk.exists_nodup_iff hrows m.topRows_subset
  · exact fun _ => allTypes_eq_of_rows
  · exact fun _ => exists_fullName_iff

theorem not_exists_walk {m : Module} {n : Nat} (hreached : Walk.Reached m.rowsIn m.topRows n)
    (hself : n ∈ m.rowsIn n) : ¬ ∃ rows, Walk m.rowsIn m.topRows rows := fun hwalk =>
  (Walk.exists_iff_acyclic fun n _ hk => rowsIn_subset n hk).mp hwalk n hreached (.single hself)

theorem not_exists_fullName {m : Module} {type : TypeDef} (hself : m.enclosing? type = some type) :
    ¬ ∃ name, m.FullName type name := fun hname =>
  exists_fullName_iff.mp hname type ⟨type, List.mem_cons_self, .refl⟩
    (.single (mem_around.mpr hself))

/-- The document of a module in which the type `A` lists the type `B` twice. -/
def twiceDocument : String :=
  "\x7b\"name\":\"Game\",\"types\":[" ++
    "\x7b\"token\":33554433,\"namespace\":\"\",\"name\":\"A\",\"flags\":\"PUBLIC\"," ++
    "\"enclosing\":null,\"nested_types\":[33554434,33554434],\"fields\":[],\"methods\":[]\x7d," ++
    "\x7b\"token\":33554434,\"namespace\":\"\",\"name\":\"B\",\"flags\":\"PUBLIC\"," ++
    "\"enclosing\":33554433,\"nested_types\":[],\"fields\":[],\"methods\":[]\x7d]," ++
    "\"fields\":[],\"methods\":[],\"references\":[]\x7d"

def twiceTypes : Array TypeDef :=
  #[⟨.ofIndex .typeDef 0, "", "A", .isPublic, none,
      #[.ofIndex .typeDef 1, .ofIndex .typeDef 1], #[], #[]⟩,
    ⟨.ofIndex .typeDef 1, "", "B", .isPublic, some (.ofIndex .typeDef 0), #[], #[], #[]⟩]

/-- Nothing but a file with this document. -/
def twiceFiles : FileTree := ⟨[(["Game.json"], .file twiceDocument.toUTF8 ⟨0⟩)], ⟨0⟩⟩

theorem walk_twice (m : Module) (htypes : m.types = twiceTypes) :
    Walk m.rowsIn m.topRows [0, 1, 1] := by
  have htop : m.topRows = [0] := by
    unfold topRows
    rw [htypes]
    decide +kernel
  have hrows : m.rowsIn 0 = [1, 1] ∧ m.rowsIn 1 = [] := by
    unfold rowsIn typeRow?
    rw [htypes]
    decide +kernel
  rw [htop]
  refine .step ?_
  rw [hrows.1]
  refine .step ?_
  rw [hrows.2]
  refine .step ?_
  rw [hrows.2]
  exact .done

/-- A module can be loaded although the walk over its types yields one of them twice. -/
theorem not_loaded_walks : ¬ ∀ (files : FileTree) (path : String) (m : Module),
    load files path = .ok m →
      (∃ rows, Walk m.rowsIn m.topRows rows ∧ rows.Nodup) ∧
        ∀ type ∈ m.types.toList, ∃ name, m.FullName type name := by
  intro h
  have htypes : (load twiceFiles "Game.json").toOption.map Module.types = some twiceTypes := by
    decide +kernel
  obtain ⟨m, hload, htypes⟩ := Option.map_eq_some_iff.mp htypes
  have hloaded : load twiceFiles "Game.json" = .ok m := by
    cases hresult : load twiceFiles "Game.json" with
    | error e => rw [hresult] at hload; cases hload
    | ok m' => rw [hresult] at hload; cases hload; rfl
  obtain ⟨⟨rows, hwalk, hnodup⟩, -⟩ := h twiceFiles "Game.json" m hloaded
  rw [hwalk.unique (walk_twice m htypes)] at hnodup
  exact absurd hnodup (by decide)

end CilWeave.Module
