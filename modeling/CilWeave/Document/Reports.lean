import CilWeave.Json.Basic
import CilWeave.Run.Report

/-
The document form of reports.
-/

namespace CilWeave.Report

def members (r : Report) : List (String × Json) :=
  [("methods_patched", .nat r.methodsPatched), ("replaced", .nat r.replaced),
    ("missed", .nat r.missed), ("failed_methods", .nat r.failedMethods),
    ("from_cache", .bool r.fromRecord), ("elapsed_ms", .nat r.elapsed)]

def toJson (r : Report) : Json := .record r.members

end CilWeave.Report
