import CMakeScript.Engine.Properties
/-! Commands on properties of the run, of directories, targets and cache entries. -/
namespace CMakeScript.Command

def directoryNotFound : String :=
  "requested directory was not found. This could be because the directory argument was " ++
    "invalid or, it is valid but has not been processed yet."

def noProperty : String := "not given a PROPERTY <name> argument."

def invalidArgument (argument : String) : String :=
  "given invalid argument \"" ++ argument ++ "\"."

def wrongCount : String := "called with incorrect number of arguments"

inductive PropertyPart where
  | nothing
  | name
  | property
  | value
  deriving DecidableEq, Repr

structure SetPropertyRequest where
  part : PropertyPart := .name
  names : List String := []
  property : String := ""
  values : List String := []
  append : Option Bool := none
  deriving DecidableEq, Repr

namespace SetPropertyRequest

def read (r : SetPropertyRequest) : List String → Except String SetPropertyRequest
  | [] => .ok r
  | "PROPERTY" :: rest => read { r with part := .property } rest
  | "APPEND" :: rest => read { r with part := .nothing, append := some false } rest
  | "APPEND_STRING" :: rest => read { r with part := .nothing, append := some true } rest
  | argument :: rest =>
    match r.part with
    | .name => read { r with names := argument :: r.names } rest
    | .property => read { r with property := argument, part := .value } rest
    | .value => read { r with values := argument :: r.values } rest
    | .nothing => .error (invalidArgument argument)

def value (r : SetPropertyRequest) : String := ListValue.join r.values.reverse

def edit (r : SetPropertyRequest) : PropertyEdit :=
  match r.append with
  | some raw => .append r.value raw
  | none => if r.values.isEmpty then .remove else .assign r.value

end SetPropertyRequest

def settableScope? : String → Option PropertyScope
  | "GLOBAL" => some .global
  | "DIRECTORY" => some .directory
  | "TARGET" => some .target
  | "CACHE" => some .cache
  | _ => none

def setTargets (r : SetPropertyRequest) : List String → Step Verdict
  | [] => Step.done
  | name :: rest => do
    let e ← get
    if e.targets.isAlias name then Step.fail "can not be used on an ALIAS target."
    else if !e.targets.contains name then
      Step.fail ("could not find TARGET " ++ name ++ ".  Perhaps it has not yet been created.")
    else
      let (edited, e) := e.editTarget name r.property r.edit
      set e
      if edited then setTargets r rest else Step.done

def cacheRefusal? (r : SetPropertyRequest) : Option String :=
  let value := r.value
  if r.property = "ADVANCED" ∧ r.values ≠ [] ∧ !ListValue.isOn value ∧ !ListValue.isOff value then
    some ("given non-boolean value \"" ++ value ++ "\" for CACHE property \"ADVANCED\".  ")
  else if r.property = "TYPE" ∧ (CacheType.ofKeyword? value).isNone then
    some ("given invalid CACHE entry TYPE \"" ++ value ++ "\"")
  else none

def setCacheEntries (r : SetPropertyRequest) : List String → Step Verdict
  | [] => Step.done
  | name :: rest => do
    let e ← get
    if !e.cache.contains name then
      Step.fail ("could not find CACHE variable " ++ name ++
        ".  Perhaps it has not yet been created.")
    else match cacheRefusal? r with
      | some reason => Step.fail reason
      | none =>
        set { e with cache := r.edit.applyToCache e.cache name r.property }
        setCacheEntries r rest

def applyRequest (r : SetPropertyRequest) (scope : PropertyScope) : Step Verdict := do
  let names := NameSet.sorted r.names
  match scope with
  | .global =>
    if !names.isEmpty then Step.fail "given names for GLOBAL scope."
    else
      modify fun e => { e with globals := r.edit.apply e.globals r.property }
      Step.done
  | .directory =>
    if 1 < names.length then Step.fail "allows at most one name for DIRECTORY scope."
    else match (← get).findDirectory? names.head? with
      | none => Step.fail ("DIRECTORY scope provided but " ++ directoryNotFound)
      | some id =>
        modify (·.editDirectory id r.property r.edit)
        Step.done
  | .target => setTargets r names
  | _ => setCacheEntries r names

def setProperty : List String → Step Verdict
  | [] => Step.fail wrongCount
  | scope :: arguments =>
    match settableScope? scope with
    | none =>
      Step.fail ("given invalid scope " ++ scope ++
        ".  Valid scopes are GLOBAL, DIRECTORY, TARGET, CACHE.")
    | some scope =>
      match SetPropertyRequest.read {} arguments with
      | .error reason => Step.fail reason
      | .ok r => if r.property.isEmpty then Step.fail noProperty else applyRequest r scope

inductive PropertyQuestion where
  | value
  | isSet
  | isDeclared
  | brief
  | full
  deriving DecidableEq, Repr

structure GetPropertyRequest where
  part : PropertyPart := .name
  name : Option String := none
  property : String := ""
  question : PropertyQuestion := .value
  deriving DecidableEq, Repr

def GetPropertyRequest.read (r : GetPropertyRequest) :
    List String → Except String GetPropertyRequest
  | [] => .ok r
  | "PROPERTY" :: rest => read { r with part := .property } rest
  | "BRIEF_DOCS" :: rest => read { r with part := .nothing, question := .brief } rest
  | "FULL_DOCS" :: rest => read { r with part := .nothing, question := .full } rest
  | "SET" :: rest => read { r with part := .nothing, question := .isSet } rest
  | "DEFINED" :: rest => read { r with part := .nothing, question := .isDeclared } rest
  | argument :: rest =>
    match r.part with
    | .name => read { r with part := .nothing, name := some argument } rest
    | .property => read { r with part := .nothing, property := argument } rest
    | _ => .error (invalidArgument argument)

def readableScope? : String → Option PropertyScope
  | "VARIABLE" => some .scopedVariable
  | other => settableScope? other

def lookUpProperty (e : Engine) (scope : PropertyScope) (r : GetPropertyRequest) :
    Except String (Option String) :=
  match scope, r.name with
  | .global, none => .ok (e.globalProperty? r.property)
  | .global, some _ => .error "given name for GLOBAL scope."
  | .directory, name =>
    match e.findDirectory? name with
    | none => .error ("DIRECTORY scope provided but " ++ directoryNotFound)
    | some id => .ok (e.directoryProperty? id r.property)
  | .target, none => .error "not given name for TARGET scope."
  | .target, some target =>
    if e.targets.contains target then .ok (e.targetProperty? target r.property)
    else .error ("could not find TARGET " ++ target ++
      ".  Perhaps it has not yet been created.")
  | .scopedVariable, none => .ok (e.definition? r.property)
  | .scopedVariable, some _ => .error "given name for VARIABLE scope."
  | _, none => .error "not given name for CACHE scope."
  | _, some entry => .ok (e.cache.property? entry r.property)

def answerQuestion (output : String) (scope : PropertyScope) (r : GetPropertyRequest) :
    Step Verdict := do
  let e ← get
  let declared := e.declarations.get? scope r.property
  let flag := fun (holds : Bool) => if holds then "1" else "0"
  match r.question with
  | .isDeclared =>
    Step.define output (flag declared.isSome)
    Step.done
  | .brief =>
    Step.define output ((declared.map (·.brief)).getD "NOTFOUND")
    Step.done
  | .full =>
    Step.define output ((declared.map (·.full)).getD "NOTFOUND")
    Step.done
  | .value =>
    match lookUpProperty e scope r with
    | .error reason => Step.fail reason
    | .ok value =>
      modify (·.assign output value)
      Step.done
  | .isSet =>
    match lookUpProperty e scope r with
    | .error reason => Step.fail reason
    | .ok value =>
      Step.define output (flag value.isSome)
      Step.done

def getProperty : List String → Step Verdict
  | output :: scope :: first :: more =>
    match readableScope? scope with
    | none =>
      Step.fail ("given invalid scope " ++ scope ++
        ".  Valid scopes are GLOBAL, DIRECTORY, TARGET, VARIABLE, CACHE.")
    | some scope =>
      match GetPropertyRequest.read {} (first :: more) with
      | .error reason => Step.fail reason
      | .ok r => if r.property.isEmpty then Step.fail noProperty else answerQuestion output scope r
  | _ => Step.fail wrongCount

inductive DeclarationPart where
  | nothing
  | property
  | brief
  | full
  | source
  deriving DecidableEq, Repr

structure DeclarationRequest where
  part : DeclarationPart := .nothing
  property : String := ""
  declaration : PropertyDeclaration := {}
  deriving DecidableEq, Repr

def DeclarationRequest.read (r : DeclarationRequest) :
    List String → Except String DeclarationRequest
  | [] => .ok r
  | "PROPERTY" :: rest => read { r with part := .property } rest
  | "BRIEF_DOCS" :: rest => read { r with part := .brief } rest
  | "FULL_DOCS" :: rest => read { r with part := .full } rest
  | "INITIALIZE_FROM_VARIABLE" :: rest => read { r with part := .source } rest
  | "INHERITED" :: rest =>
    read { r with part := .nothing, declaration := { r.declaration with inherited := true } } rest
  | argument :: rest =>
    let d := r.declaration
    match r.part with
    | .property => read { r with part := .nothing, property := argument } rest
    | .source =>
      read { r with part := .nothing, declaration := { d with source := some argument } } rest
    | .brief => read { r with declaration := { d with brief := d.brief ++ argument } } rest
    | .full => read { r with declaration := { d with full := d.full ++ argument } } rest
    | .nothing => .error (invalidArgument argument)

def sourceRefusal? (scope : PropertyScope) (property source : String) : Option String :=
  if scope ≠ .target then
    some ("Scope " ++ scope.keyword ++ " does not support INITIALIZE_FROM_VARIABLE.")
  else match Text.cutAt ['_'] property.toList with
    | none =>
      some ("Property name \"" ++ property ++
        "\" defined with INITIALIZE_FROM_VARIABLE does not contain an underscore.")
    | some (head, _) =>
      let start := String.ofList head ++ "_"
      if Text.startsWith source start then none
      else
        some ("Variable name \"" ++ source ++
          "\" does not start with the property name prefix \"" ++ start ++ "\".")

def defineProperty : List String → Step Verdict
  | [] => Step.fail wrongCount
  | word :: arguments =>
    match if word = "CACHE" then none else PropertyScope.ofKeyword? word with
    | none =>
      Step.fail ("given invalid scope " ++ word ++ ".  Valid scopes are GLOBAL, DIRECTORY, " ++
        "TARGET, SOURCE, TEST, VARIABLE, CACHED_VARIABLE.")
    | some scope =>
      match DeclarationRequest.read {} arguments with
      | .error reason => Step.fail reason
      | .ok r =>
        if r.property.isEmpty then Step.fail noProperty
        else match r.declaration.source.bind (sourceRefusal? scope r.property) with
          | some reason => Step.fail reason
          | none => do
            modify fun e =>
              { e with declarations := e.declarations.declare scope r.property r.declaration }
            Step.done

def readDirectory (output : String) (id : Nat) : List String → Step Verdict
  | [] => Step.fail wrongCount
  | ["DEFINITION"] =>
    Step.fail ("A request for a variable definition was made without providing the name of " ++
      "the variable to get.")
  | "DEFINITION" :: name :: _ => do
    Step.define output (((← get).scopes.definition? id name).getD "")
    Step.done
  | property :: _ => do
    if property.isEmpty then Step.fail "given empty string for the property name to get"
    else
      Step.define output (((← get).directoryProperty? id property).getD "")
      Step.done

def getDirectoryProperty : List String → Step Verdict
  | [] | [_] => Step.fail wrongCount
  | [_, "DIRECTORY"] => Step.fail "DIRECTORY argument provided without subsequent arguments"
  | output :: "DIRECTORY" :: path :: rest => do
    match (← get).findDirectory? (some path) with
    | none => Step.fail ("DIRECTORY argument provided but " ++
        "requested directory not found. This could be because the directory argument was " ++
        "invalid or, it is valid but has not been processed yet.")
    | some id => readDirectory output id rest
  | output :: rest => do readDirectory output (← get).snapshot rest

def setDirectoryPairs (id : Nat) : List String → Step Verdict
  | name :: value :: rest => do
    if name = "VARIABLES" then
      Step.fail "Variables and cache variables should be set using SET command"
    else if name = "MACROS" then
      Step.fail "Commands and macros cannot be set using SET_CMAKE_PROPERTIES"
    else
      modify (·.editDirectory id name (.assign value))
      setDirectoryPairs id rest
  | _ => Step.done

def setDirectoryProperties : List String → Step Verdict
  | [] => Step.fail wrongCount
  | _ :: pairs => do
    if pairs.length % 2 = 1 then Step.fail "Wrong number of arguments"
    else setDirectoryPairs (← get).snapshot pairs

def getCMakeProperty : List String → Step Verdict
  | output :: name :: _ => do
    let e ← get
    let value :=
      if name = "VARIABLES" then e.directoryProperty? e.snapshot name
      else if name.isEmpty then none
      else e.globalProperty? name
    Step.define output (value.getD "NOTFOUND")
    Step.done
  | _ => Step.fail wrongCount

end CMakeScript.Command
