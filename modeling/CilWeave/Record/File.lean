import CilWeave.Files.Tree
import CilWeave.Record.Text

/-
Patch records in files.

The fingerprint of a record is made of the version of the tool and the time the
assembly was last modified. A record that cannot be read is as good as none.
-/

namespace CilWeave

namespace PatchRecord

def fingerprintOf (version : String) (files : FileTree) (target : String) :
    Except Error String :=
  match files.modified target with
  | .ok modified => .ok (version ++ " // " ++ modified.text)
  | .error fault => .error (.file fault)

/-- Writes the record to a file, whose directory is made if there is none. -/
def save (r : PatchRecord) (files : FileTree) (path : String) :
    FileTree × Except Error Unit :=
  match files.writeDeep path r.toText.toUTF8 with
  | (files, .ok ()) => (files, .ok ())
  | (files, .error fault) => (files, .error (.file fault))

/-- Reads the record of a file, if there is one for the fingerprint. -/
def load (files : FileTree) (path fingerprint : String) : Except Error (Option PatchRecord) :=
  match files.readText path with
  | .ok text => ofText text path fingerprint
  | .error _ => .ok none

end PatchRecord

end CilWeave
