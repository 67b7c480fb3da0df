import CMakeScript.ListFile.Basic
import CMakeScript.NameSet
import CMakeScript.Options
import CMakeScript.Policy.Frames
import Std.Data.TreeMap
/-! Commands by name: the built-in ones, and the functions and macros that a run defines. -/
namespace CMakeScript

inductive Misplaced where
  | elseBranch
  | elseifBranch
  | endIf
  | endWhile
  | endForeach
  | endFunction
  | endMacro
  | endBlock
  | project
  deriving DecidableEq, Repr

namespace Misplaced

def orphan (word opening closing : String) (alsoArguments : Bool) : String :=
  let arguments :=
    if alsoArguments then " Or its arguments did not match the opening " ++ opening ++ " command."
    else ""
  "An " ++ word ++ " command was found outside of a proper " ++ opening ++ " " ++ closing ++
    " structure." ++ arguments

def message : Misplaced → String
  | elseBranch => orphan "ELSE" "IF" "ENDIF" true
  | elseifBranch => orphan "ELSEIF" "IF" "ENDIF" false
  | endIf => orphan "ENDIF" "IF" "ENDIF" true
  | endWhile => orphan "ENDWHILE" "WHILE" "ENDWHILE" true
  | endForeach => orphan "ENDFOREACH" "FOREACH" "ENDFOREACH" true
  | endFunction => orphan "ENDFUNCTION" "FUNCTION" "ENDFUNCTION" true
  | endMacro => orphan "ENDMACRO" "MACRO" "ENDMACRO" true
  | endBlock => "An ENDBLOCK command was found outside of a proper BLOCK and ENDBLOCK structure."
  | project => "command is not scriptable"

end Misplaced

inductive Builtin where
  | ifBlock
  | whileLoop
  | foreachLoop
  | breakLoop
  | continueLoop
  | returnCall
  | functionDef
  | macroDef
  | scopeBlock
  | misplaced (m : Misplaced)
  | includeFile
  | minimumRequired
  | policy
  | language
  | message
  | set
  | unset
  | option
  | math
  | list
  | string
  | setProperty
  | getProperty
  | defineProperty
  | getDirectoryProperty
  | setDirectoryProperties
  | getCMakeProperty
  | buildName
  | removed (message : String)
  | addSubdirectory
  | project
  | addExecutable
  | addLibrary
  | addCustomTarget
  | setTargetProperties
  | getTargetProperty
  | includeDirectories
  | addCompileOptions
  | addCompileDefinitions
  | addDefinitions
  | addLinkOptions
  | linkDirectories
  deriving DecidableEq, Repr

namespace Builtin

def flowControl : List (String × Builtin) :=
  [("if", ifBlock), ("while", whileLoop), ("foreach", foreachLoop), ("break", breakLoop),
    ("continue", continueLoop), ("return", returnCall), ("function", functionDef),
    ("macro", macroDef), ("block", scopeBlock), ("else", misplaced .elseBranch),
    ("elseif", misplaced .elseifBranch), ("endif", misplaced .endIf),
    ("endwhile", misplaced .endWhile), ("endforeach", misplaced .endForeach),
    ("endfunction", misplaced .endFunction), ("endmacro", misplaced .endMacro),
    ("endblock", misplaced .endBlock)]

def general : List (String × Builtin) :=
  [("include", includeFile), ("cmake_minimum_required", minimumRequired),
    ("cmake_policy", policy), ("cmake_language", language), ("message", message), ("set", set),
    ("unset", unset), ("option", option), ("math", math), ("list", list), ("string", string),
    ("set_property", setProperty), ("get_property", getProperty),
    ("define_property", defineProperty), ("get_directory_property", getDirectoryProperty),
    ("set_directory_properties", setDirectoryProperties),
    ("get_cmake_property", getCMakeProperty), ("build_name", buildName),
    ("export_library_dependencies",
      removed "The export_library_dependencies command should not be called; see CMP0033."),
    ("load_command", removed "The load_command command should not be called; see CMP0031.")]

def ofProject : List (String × Builtin) :=
  [("add_subdirectory", addSubdirectory), ("project", project),
    ("add_executable", addExecutable), ("add_library", addLibrary),
    ("add_custom_target", addCustomTarget), ("set_target_properties", setTargetProperties),
    ("get_target_property", getTargetProperty), ("include_directories", includeDirectories),
    ("add_compile_options", addCompileOptions),
    ("add_compile_definitions", addCompileDefinitions), ("add_definitions", addDefinitions),
    ("add_link_options", addLinkOptions), ("link_directories", linkDirectories)]

def refused : List (String × Builtin) :=
  ofProject.map fun (name, _) => (name, misplaced .project)

def table : Mode → List (String × Builtin)
  | .project => flowControl ++ general ++ ofProject
  | .script => flowControl ++ general ++ refused

def reserved : Mode → List String
  | .project => flowControl.map Prod.fst
  | .script => (flowControl ++ refused).map Prod.fst

end Builtin

inductive DefinitionKind where
  | function
  | macroCall
  deriving DecidableEq, Repr, Inhabited

structure Definition where
  kind : DefinitionKind
  name : String
  parameters : List String
  body : List Command
  policies : PolicySettings
  file : String
  line : Nat
  deriving DecidableEq, Repr, Inhabited

inductive Callable where
  | builtin (b : Builtin)
  | defined (d : Definition)
  deriving DecidableEq, Repr

namespace Callable

def isMacro : Callable → Bool
  | builtin _ => false
  | defined d => d.kind == .macroCall

end Callable

structure Registry where
  mode : Mode
  added : Std.TreeMap String Callable := {}
  deriving Inhabited

namespace Registry

def builtin? (r : Registry) (lower : String) : Option Builtin :=
  ((Builtin.table r.mode).find? fun entry => entry.1 == lower).map Prod.snd

def findLower? (r : Registry) (lower : String) : Option Callable :=
  match r.added[lower]? with
  | some c => some c
  | none => (r.builtin? lower).map .builtin

def find? (r : Registry) (name : String) : Option Callable := r.findLower? (Text.lower name)

def contains (r : Registry) (name : String) : Bool := (r.find? name).isSome

def isReserved (r : Registry) (lower : String) : Bool := (Builtin.reserved r.mode).contains lower

/-- Adds a function or macro; `none` for a reserved name. What the name meant before stays within
reach behind an underscore. -/
def define? (r : Registry) (d : Definition) : Option Registry :=
  let lower := Text.lower d.name
  if r.isReserved lower then none
  else
    let added := match r.findLower? lower with
      | some before => r.added.insert ("_" ++ lower) before
      | none => r.added
    some { r with added := added.insert lower (.defined d) }

def names (r : Registry) : List String :=
  NameSet.sorted ((Builtin.table r.mode).map Prod.fst ++ r.added.keys)

def macroNames (r : Registry) : List String :=
  (r.added.toList.filter fun entry => entry.2.isMacro).map Prod.fst

end Registry
end CMakeScript
