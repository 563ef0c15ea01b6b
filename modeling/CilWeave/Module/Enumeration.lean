import CilWeave.Module.Basic

/-
The types and methods of a module in one sequence.

Types come level by level: first those that are not nested, in declaration
order, then the types nested in them, and so on. A type of level `n` has `n`
types around it, all different as long as the nesting has no cycle, so no level
beyond the number of types holds anything.
-/

namespace CilWeave

namespace Module

/-- The types that are not nested, in declaration order. -/
def topLevelTypes (m : Module) : List TypeDef := m.types.toList.filter fun t => !t.isNested

/-- The types nested directly in some types, in their order. -/
def nestedIn (m : Module) (level : List TypeDef) : List TypeDef :=
  level.flatMap fun t => t.nestedTypes.toList.filterMap m.typeDef?

/-- The types of a level and of the next ones, of at most `count` levels. -/
def levelsFrom (m : Module) : (count : Nat) → List TypeDef → List TypeDef
  | 0, _ => []
  | _, [] => []
  | count + 1, level => level ++ m.levelsFrom count (m.nestedIn level)

/-- Every type of the module, interfaces included. -/
def allTypes (m : Module) : List TypeDef := m.levelsFrom m.types.size m.topLevelTypes

def allMethods (m : Module) : List MethodDef :=
  m.allTypes.flatMap fun t => t.methods.toList.filterMap m.methodDef?

end Module

end CilWeave
