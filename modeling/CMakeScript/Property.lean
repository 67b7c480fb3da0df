import Std.Data.TreeMap
/-! Properties: named texts attached to a directory, a target or a cache entry, and declarations
that say how a property is inherited and initialised. -/
namespace CMakeScript

abbrev Properties := Std.TreeMap String String

namespace Properties

def append (m : Properties) (name value : String) (raw : Bool) : Properties :=
  if value.isEmpty then m
  else
    let current := m.getD name ""
    let separator := if current.isEmpty || raw then "" else ";"
    m.insert name (current ++ separator ++ value)

end Properties

inductive PropertyScope where
  | global
  | directory
  | target
  | source
  | test
  | scopedVariable
  | cache
  deriving DecidableEq, Repr

namespace PropertyScope

def ofKeyword? : String → Option PropertyScope
  | "GLOBAL" => some global
  | "DIRECTORY" => some directory
  | "TARGET" => some target
  | "SOURCE" => some source
  | "TEST" => some test
  | "VARIABLE" => some scopedVariable
  | "CACHED_VARIABLE" => some cache
  | "CACHE" => some cache
  | _ => none

def keyword : PropertyScope → String
  | global => "GLOBAL"
  | directory => "DIRECTORY"
  | target => "TARGET"
  | source => "SOURCE"
  | test => "TEST"
  | scopedVariable => "VARIABLE"
  | cache => "CACHED_VARIABLE"

end PropertyScope

structure PropertyDeclaration where
  brief : String := ""
  full : String := ""
  inherited : Bool := false
  source : Option String := none
  deriving DecidableEq, Repr, Inhabited

structure PropertyDeclarations where
  byScope : PropertyScope → Std.TreeMap String PropertyDeclaration := fun _ => {}

instance : Inhabited PropertyDeclarations := ⟨{}⟩

namespace PropertyDeclarations

def get? (d : PropertyDeclarations) (scope : PropertyScope) (name : String) :
    Option PropertyDeclaration := (d.byScope scope)[name]?

def declare (d : PropertyDeclarations) (scope : PropertyScope) (name : String)
    (declaration : PropertyDeclaration) : PropertyDeclarations :=
  let table := (d.byScope scope).insertIfNew name declaration
  ⟨fun s => if s = scope then table else d.byScope s⟩

def isInherited (d : PropertyDeclarations) (scope : PropertyScope) (name : String) : Bool :=
  match d.get? scope name with
  | some declaration => declaration.inherited
  | none => false

def initializers (d : PropertyDeclarations) (scope : PropertyScope) : List (String × String) :=
  (d.byScope scope).toList.filterMap fun (name, declaration) =>
    declaration.source.map (name, ·)

end PropertyDeclarations
end CMakeScript
