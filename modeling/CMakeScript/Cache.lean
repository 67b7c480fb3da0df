import CMakeScript.Property
/-! The cache: variables that outlive every scope, each with a type and properties. -/
namespace CMakeScript

inductive CacheType where
  | bool
  | path
  | filePath
  | string
  | internal
  | static
  | uninitialized
  deriving DecidableEq, Repr, Inhabited

namespace CacheType

def ofKeyword? : String → Option CacheType
  | "BOOL" => some bool
  | "PATH" => some path
  | "FILEPATH" => some filePath
  | "STRING" => some string
  | "INTERNAL" => some internal
  | "STATIC" => some static
  | "UNINITIALIZED" => some uninitialized
  | _ => none

def keyword : CacheType → String
  | bool => "BOOL"
  | path => "PATH"
  | filePath => "FILEPATH"
  | string => "STRING"
  | internal => "INTERNAL"
  | static => "STATIC"
  | uninitialized => "UNINITIALIZED"

end CacheType

structure CacheEntry where
  value : String
  type : CacheType
  properties : Properties := {}
  deriving Inhabited

abbrev Cache := Std.TreeMap String CacheEntry

namespace Cache

def value? (cache : Cache) (name : String) : Option String := cache[name]?.map (·.value)

def add (cache : Cache) (name value help : String) (type : CacheType) : Cache :=
  let properties := match cache[name]? with
    | some entry => entry.properties
    | none => {}
  let properties := if help.isEmpty then properties else properties.insert "HELPSTRING" help
  cache.insert name ⟨value, type, properties⟩

def property? (cache : Cache) (name property : String) : Option String := do
  let entry ← cache[name]?
  if property = "TYPE" then some entry.type.keyword
  else if property = "VALUE" then some entry.value
  else entry.properties[property]?

def appendElement (current value : String) : String :=
  if current.isEmpty then value
  else if value.isEmpty then current
  else current ++ ";" ++ value

def editEntry (entry : CacheEntry) (property value : String) (append : Bool) : CacheEntry :=
  if property = "TYPE" then
    match CacheType.ofKeyword? value with
    | some type => { entry with type := type }
    | none => entry
  else if property = "VALUE" then
    { entry with value := if append then appendElement entry.value value else value }
  else if append then
    { entry with properties := Properties.append entry.properties property value false }
  else { entry with properties := entry.properties.insert property value }

def setProperty? (cache : Cache) (name property value : String) (append : Bool) : Option Cache :=
  cache[name]?.map fun entry => cache.insert name (editEntry entry property value append)

end Cache
end CMakeScript
