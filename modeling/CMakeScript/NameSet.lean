import Std.Data.TreeMap
/-! Names in order, each one once. -/
namespace CMakeScript.NameSet

def sorted (names : List String) : List String :=
  (names.foldl (fun m name => m.insert name ()) ({} : Std.TreeMap String Unit)).keys

end CMakeScript.NameSet
