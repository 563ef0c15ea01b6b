import CilWeave.Pass.AccessorForwarding
import CilWeave.Pass.CallRedirection
import CilWeave.Pass.FieldAccess.Pass
import CilWeave.Pass.ReflectiveGetter
import CilWeave.Pass.TypeLookupGuard

/-
The passes a module can be patched with.
-/

namespace CilWeave

/-- A pass over a whole module. -/
inductive Pass where
  /-- Redirects the calls of one method. -/
  | callRedirection (redirection : CallRedirection)
  /-- Routes the access to fields through accessors. -/
  | fieldAccess (access : FieldAccess)
  /-- Forwards accessors to a backend. -/
  | accessorForwarding (forwarding : AccessorForwarding)
  /-- Guards a lookup of types by name. -/
  | typeLookupGuard (guard : TypeLookupGuard)
  /-- Routes a reflective read of fields through a getter. -/
  | reflectiveGetter
  deriving DecidableEq, Repr, Inhabited

namespace Pass

/-- The name of the pass, in reports and in the names of record files. -/
def name : Pass → String
  | .callRedirection redirection => redirection.name
  | .fieldAccess _ => FieldAccess.passName
  | .accessorForwarding _ => "AccessorForwarding"
  | .typeLookupGuard _ => "TypeLookupGuard"
  | .reflectiveGetter => "ReflectiveGetter"

/-- What the pass does, in words. -/
def description : Pass → String
  | .callRedirection redirection => redirection.description
  | .fieldAccess _ => "Routes reads and writes of tracked fields through by-name accessors"
  | .accessorForwarding _ =>
    "Forwards the typed accessors of the tracked type to a caching backend"
  | .typeLookupGuard _ => "Short-circuits reflective lookups of type names that can not resolve"
  | .reflectiveGetter => "Routes reflective variable reads through GetVariable<T>"

def run (pass : Pass) (env : Environment) : Edit Session Report :=
  match pass with
  | .callRedirection redirection => Session.onModule (redirection.run env.helpers)
  | .fieldAccess access => access.run env
  | .accessorForwarding forwarding => Session.onModule (forwarding.run env.helpers)
  | .typeLookupGuard guard => Session.onModule guard.run
  | .reflectiveGetter => Session.onModule ReflectiveGetter.run

end Pass

end CilWeave
