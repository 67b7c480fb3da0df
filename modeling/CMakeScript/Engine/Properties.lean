import CMakeScript.Engine.Messages
/-! Properties of a run, its directories and its targets. Some follow from the state itself. One that
is declared as inherited and not set is taken from the directory above, and at the top from the
run. -/
namespace CMakeScript

inductive PropertyEdit where
  | assign (value : String)
  | append (value : String) (raw : Bool)
  | remove
  deriving DecidableEq, Repr

namespace PropertyEdit

def apply (edit : PropertyEdit) (m : Properties) (name : String) : Properties :=
  match edit with
  | assign value => m.insert name value
  | append value raw => Properties.append m name value raw
  | remove => m.erase name

def applyToCache (edit : PropertyEdit) (c : Cache) (entry name : String) : Cache :=
  (match edit with
    | assign value => c.setProperty? entry name value false
    | append value _ => c.setProperty? entry name value true
    | remove => c.setProperty? entry name "" false).getD c

end PropertyEdit

namespace Engine

def globalProperty? (e : Engine) (name : String) : Option String :=
  if name = "CACHE_VARIABLES" then some (ListValue.join e.cache.keys)
  else if name = "COMMANDS" then some (ListValue.join e.registry.names)
  else if name = "MACROS" then some (ListValue.join e.registry.macroNames)
  else e.globals[name]?

def variableNames (e : Engine) (id : Nat) : List String :=
  NameSet.sorted (e.scopes.visibleNames id ++ e.cache.keys)

def sourceOf (e : Engine) (id : Nat) : Option String :=
  (e.scopes.directory? id).map (·.source)

def ownProperty? (e : Engine) (id : Nat) (d : Directory) (name : String) : Option String :=
  if name = "SOURCE_DIR" then some d.source
  else if name = "BINARY_DIR" then some d.binary
  else if name = "PARENT_DIRECTORY" then
    some (((e.scopes.parentDirectory? id).bind e.sourceOf).getD "")
  else if name = "LISTFILE_STACK" then some (ListValue.join (e.scopes.listFileStack id))
  else if name = "VARIABLES" then some (ListValue.join (e.variableNames id))
  else if name = "MACROS" then some (ListValue.join e.registry.macroNames)
  else if name = "SUBDIRECTORIES" then
    some (ListValue.join (d.children.filterMap e.sourceOf))
  else if name = "BUILDSYSTEM_TARGETS" then some (ListValue.join d.targetNames)
  else match ContentKind.ofProperty? name with
    | some kind => some (ListValue.join (e.scopes.content id kind))
    | none => d.properties[name]?

/-- A property of a directory, or of the nearest one above that has it. The bound is on the number
of directories above. -/
def propertyWithin (e : Engine) (name : String) : Nat → Nat → Option String
  | 0, _ => none
  | fuel + 1, id => do
    let d ← e.scopes.directory? id
    match e.ownProperty? id d name with
    | some value => some value
    | none =>
      if e.declarations.isInherited .directory name then
        match e.scopes.parentDirectory? id with
        | some above => propertyWithin e name fuel above
        | none => e.globalProperty? name
      else none

def directoryProperty? (e : Engine) (id : Nat) (name : String) : Option String :=
  e.propertyWithin name (e.scopes.snapshots.size + 1) id

def editDirectory (e : Engine) (id : Nat) (name : String) (edit : PropertyEdit) : Engine :=
  { e with scopes := match ContentKind.ofProperty? name with
    | some kind => match edit with
      | .assign value => e.scopes.setContent id kind value
      | .append value _ => e.scopes.appendContent id kind value
      | .remove => e.scopes.clearContent id kind
    | none => e.scopes.updateDirectory id fun d =>
      { d with properties := edit.apply d.properties name } }

def targetProperty? (e : Engine) (target name : String) : Option String :=
  if name = "ALIASED_TARGET" then e.targets.aliased? target
  else do
    let t ← e.targets.get? target
    match t.property? name with
    | some value => some value
    | none =>
      if e.declarations.isInherited .target name then
        e.directoryProperty? (← e.directoryAt? t.directory) name
      else none

def editTarget (e : Engine) (target name : String) (edit : PropertyEdit) : Bool × Engine :=
  if Target.isReadOnly name then (false, e.fatalError (name ++ " property is read-only"))
  else
    (true, { e with targets := e.targets.modify target fun t =>
      { t with properties := edit.apply t.properties name } })

def findDirectory? (e : Engine) : Option String → Option Nat
  | none => some e.snapshot
  | some path => e.directoryAt? (Path.full path e.sourceDir)

end Engine
end CMakeScript
