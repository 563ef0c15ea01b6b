import CilWeave.Files.Path

/-
The settings of a patch run that are not a matter of one pass.
-/

namespace CilWeave

/-- The settings of a patch run. -/
structure Settings where
  /-- The version that goes into every fingerprint. -/
  toolVersion : String
  /-- The directory for records and dumps; without it nothing is kept. -/
  cacheDir : Option String
  /-- Whether patched modules are dumped. -/
  dumps : Bool
  /-- Whether records are used and written. -/
  useRecords : Bool
  deriving DecidableEq, Repr, Inhabited

namespace Settings

def version : String := "0.3.2"

/-- The settings of a run that asks for nothing. -/
def standard : Settings := ⟨version, none, false, true⟩

def recordFile? (s : Settings) (pass assembly : String) : Option String :=
  if s.useRecords then
    s.cacheDir.map fun dir => Path.join dir (pass ++ "_" ++ assembly ++ "_cache.txt")
  else none

/-- The file a patched module is dumped to, if modules are dumped. -/
def dumpFile? (s : Settings) (module : String) : Option String :=
  if s.dumps then s.cacheDir.map fun dir => Path.join dir ("patched_" ++ module ++ ".json")
  else none

end Settings

end CilWeave
