import CMakeScript.Property
/-! Build targets and their aliases. -/
namespace CMakeScript

inductive TargetType where
  | executable
  | staticLibrary
  | sharedLibrary
  | moduleLibrary
  | objectLibrary
  | interfaceLibrary
  | unknownLibrary
  | utility
  deriving DecidableEq, Repr, Inhabited

namespace TargetType

def ofLibraryKeyword? : String → Option TargetType
  | "STATIC" => some staticLibrary
  | "SHARED" => some sharedLibrary
  | "MODULE" => some moduleLibrary
  | "OBJECT" => some objectLibrary
  | "INTERFACE" => some interfaceLibrary
  | "UNKNOWN" => some unknownLibrary
  | _ => none

def keyword : TargetType → String
  | executable => "EXECUTABLE"
  | staticLibrary => "STATIC_LIBRARY"
  | sharedLibrary => "SHARED_LIBRARY"
  | moduleLibrary => "MODULE_LIBRARY"
  | objectLibrary => "OBJECT_LIBRARY"
  | interfaceLibrary => "INTERFACE_LIBRARY"
  | unknownLibrary => "UNKNOWN_LIBRARY"
  | utility => "UTILITY"

def describe : TargetType → String
  | executable => "an executable"
  | staticLibrary => "a static library"
  | sharedLibrary => "a shared library"
  | moduleLibrary => "a module library"
  | objectLibrary => "an object library"
  | interfaceLibrary => "an interface library"
  | unknownLibrary => "an unknown library"
  | utility => "a custom target"

end TargetType

structure Target where
  name : String
  type : TargetType
  directory : String
  imported : Bool := false
  properties : Properties := {}
  deriving Inhabited

namespace Target

def property? (t : Target) (name : String) : Option String :=
  if name = "NAME" then some t.name
  else if name = "TYPE" then some t.type.keyword
  else if name = "SOURCE_DIR" then some t.directory
  else if name = "IMPORTED" then some (if t.imported then "TRUE" else "FALSE")
  else t.properties[name]?

def isReadOnly (name : String) : Bool :=
  ["NAME", "TYPE", "SOURCE_DIR", "IMPORTED", "ALIASED_TARGET"].contains name

end Target

inductive TargetError where
  | clash (existing : Target)
  | aliasClash
  | targetIsAlias (target : String)
  | noSuchTarget (target : String)

namespace TargetError

def message : TargetError → String
  | clash existing =>
    "another target with the same name already exists.  The existing target is " ++
      existing.type.describe ++ " created in source directory \"" ++ existing.directory ++ "\"."
  | aliasClash => "another target with the same name already exists."
  | targetIsAlias target => "target \"" ++ target ++ "\" is itself an ALIAS."
  | noSuchTarget target => "target \"" ++ target ++ "\" does not already exist."

end TargetError

structure Targets where
  targets : Std.TreeMap String Target := {}
  aliases : Std.TreeMap String String := {}
  deriving Inhabited

namespace Targets

def contains (r : Targets) (name : String) : Bool :=
  r.targets.contains name || r.aliases.contains name

def isAlias (r : Targets) (name : String) : Bool := r.aliases.contains name

def aliased? (r : Targets) (name : String) : Option String := r.aliases[name]?

def resolve (r : Targets) (name : String) : String := r.aliases.getD name name

def get? (r : Targets) (name : String) : Option Target := r.targets[r.resolve name]?

def modify (r : Targets) (name : String) (f : Target → Target) : Targets :=
  match r.get? name with
  | some target => { r with targets := r.targets.insert (r.resolve name) (f target) }
  | none => r

def add (r : Targets) (target : Target) : Except TargetError Targets :=
  match r.get? target.name with
  | some existing => .error (.clash existing)
  | none => .ok { r with targets := r.targets.insert target.name target }

def addAlias (r : Targets) (name target : String) : Except TargetError Targets :=
  if r.contains name then .error .aliasClash
  else if r.isAlias target then .error (.targetIsAlias target)
  else if !r.targets.contains target then .error (.noSuchTarget target)
  else .ok { r with aliases := r.aliases.insert name target }

end Targets
end CMakeScript
