import CMakeScript.Command.Property
/-! Commands that declare build targets and read or write their properties. -/
namespace CMakeScript.Command

def reservedTargets : List String :=
  ["all", "ALL_BUILD", "help", "install", "INSTALL", "preinstall", "clean", "edit_cache",
    "rebuild_cache", "ZERO_CHECK"]

def isTargetName (name : String) : Bool :=
  !name.isEmpty && !reservedTargets.contains name && name.toList.all fun c =>
    Text.isAlphanumeric c || c == '_' || c == '.' || c == '+' || c == '-' || c == ':'

def withTargetName (name : String) (step : Step Verdict) : Step Verdict :=
  if isTargetName name then step
  else Step.fatal ("The target name \"" ++ name ++ "\" is reserved or not valid for certain " ++
    "CMake features, such as generator expressions, and may result in undefined behavior.")

def setContents (e : Engine) (properties : Properties) : Properties :=
  (ContentKind.all.filter (· != .compileDefinitions)).foldl (fun m kind =>
    let entries := e.scopes.content e.snapshot kind
    if entries.isEmpty then m else m.insert kind.property (ListValue.join entries)) properties

def startingProperties (e : Engine) (sources : List String) (excluded : Bool) : Properties :=
  let m := setContents e {}
  let m := if sources.isEmpty then m else m.insert "SOURCES" (ListValue.join sources)
  let m := if excluded then m.insert "EXCLUDE_FROM_ALL" "TRUE" else m
  (e.declarations.initializers .target).foldl (fun m (property, source) =>
    match e.definition? source with
    | some value => m.insert property value
    | none => m) m

def createTarget (name : String) (type : TargetType) (sources : List String)
    (excluded : Bool) (extra : List (String × String)) : Step Verdict := do
  let e ← get
  let properties := startingProperties e sources excluded
  match e.targets.add { name, type, directory := e.sourceDir, properties } with
  | .error error =>
    Step.fail ("cannot create target \"" ++ name ++ "\" because " ++ error.message ++
      "  See documentation for policy CMP0002 for more details.")
  | .ok targets =>
    let targets := targets.modify name fun t =>
      { t with properties := extra.foldl (fun m (k, v) => m.insert k v) t.properties }
    set { e with
      targets := targets,
      scopes := e.scopes.updateDirectory e.snapshot fun d =>
        { d with targetNames := d.targetNames ++ [name] } }
    Step.done

def createImported (name : String) (type : TargetType) (isGlobal : Bool) : Step Verdict := do
  let e ← get
  let refusal := "cannot create imported target \"" ++ name ++
    "\" because another target with the same name already exists."
  if e.targets.contains name then Step.fail refusal
  else
    let properties : Properties :=
      if isGlobal then ({} : Properties).insert "IMPORTED_GLOBAL" "TRUE" else {}
    match e.targets.add
        { name, type, directory := e.sourceDir, imported := true, properties } with
    | .error _ => Step.fail refusal
    | .ok targets =>
      set { e with targets }
      Step.done

def createAlias (name : String) (words rest : List String) (accepts : Target → Bool)
    (kind : String) : Step Verdict := do
  let e ← get
  match words, rest with
  | [_, _], [aliased] =>
    let refusal := fun (reason : String) =>
      "cannot create ALIAS target \"" ++ name ++ "\" because " ++ reason
    if e.targets.isAlias aliased then
      Step.fail (refusal (TargetError.targetIsAlias aliased).message)
    else match e.targets.get? aliased with
      | none => Step.fail (refusal (TargetError.noSuchTarget aliased).message)
      | some target =>
        if !accepts target then
          Step.fail (refusal ("target \"" ++ aliased ++ "\" is not " ++ kind ++ "."))
        else match e.targets.addAlias name aliased with
          | .error error => Step.fail (refusal error.message)
          | .ok targets =>
            set { e with targets }
            Step.done
  | _, _ => Step.fail "ALIAS requires exactly one target argument."

structure Declaration where
  type : TargetType
  hasType : Bool := false
  win32 : Bool := false
  bundle : Bool := false
  excluded : Bool := false
  imported : Bool := false
  isGlobal : Bool := false
  isAlias : Bool := false
  rest : List String := []
  deriving DecidableEq, Repr

namespace Declaration

def ofExecutable (d : Declaration) : List String → Declaration
  | "WIN32" :: rest => ofExecutable { d with win32 := true } rest
  | "MACOSX_BUNDLE" :: rest => ofExecutable { d with bundle := true } rest
  | "EXCLUDE_FROM_ALL" :: rest => ofExecutable { d with excluded := true } rest
  | "IMPORTED" :: rest => ofExecutable { d with imported := true } rest
  | "ALIAS" :: rest => { d with isAlias := true, rest }
  | "GLOBAL" :: rest =>
    if d.imported then ofExecutable { d with isGlobal := true } rest
    else { d with rest := "GLOBAL" :: rest }
  | rest => { d with rest }

def ofLibrary (d : Declaration) : List String → Except String Declaration
  | [] => .ok { d with rest := [] }
  | word :: rest =>
    let isInterface := d.type == .interfaceLibrary
    let conflict := fun (what : String) => "INTERFACE library specified with conflicting" ++ what
    if word = "INTERFACE" then
      if d.hasType then .error (conflict "/multiple types.")
      else ofLibrary { d with type := .interfaceLibrary, hasType := true } rest
    else if word = "ALIAS" then
      if isInterface then .error (conflict " ALIAS type.")
      else .ok { d with isAlias := true, rest }
    else if word = "EXCLUDE_FROM_ALL" then ofLibrary { d with excluded := true } rest
    else if word = "IMPORTED" then ofLibrary { d with imported := true } rest
    else if word = "GLOBAL" ∧ d.imported then ofLibrary { d with isGlobal := true } rest
    else if word = "GLOBAL" ∧ isInterface then
      .error "GLOBAL option may only be used with IMPORTED libraries."
    else match TargetType.ofLibraryKeyword? word with
      | none => .ok { d with rest := word :: rest }
      | some type =>
        if isInterface then .error (conflict (" " ++ word ++ " type."))
        else ofLibrary { d with type := type, hasType := true } rest

def aliasRefusal? (d : Declaration) : Option String :=
  if d.excluded then some "EXCLUDE_FROM_ALL with ALIAS makes no sense."
  else if d.imported then some "IMPORTED with ALIAS is not allowed."
  else none

def importedConflict? (d : Declaration) : Option String :=
  if !d.imported then none
  else if d.win32 then some "WIN32"
  else if d.bundle then some "MACOSX_BUNDLE"
  else if d.excluded then some "EXCLUDE_FROM_ALL"
  else none

end Declaration

def isExecutable (t : Target) : Bool := t.type == .executable

def isLibrary (t : Target) : Bool :=
  match t.type with
  | .executable | .utility => false
  | .unknownLibrary => t.imported
  | _ => true

def declareAlias (d : Declaration) (name : String) (words : List String)
    (accepts : Target → Bool) (kind : String) : Step Verdict :=
  match d.aliasRefusal? with
  | some reason => Step.fail reason
  | none => createAlias name words d.rest accepts kind

def addExecutable : List String → Step Verdict
  | [] => Step.fail wrongCount
  | name :: words =>
    let d := Declaration.ofExecutable { type := .executable } words
    withTargetName name (
      match d.importedConflict? with
      | some option =>
        Step.fail ("may not be given " ++ option ++ " for an IMPORTED target.")
      | none =>
        if d.isAlias then declareAlias d name words isExecutable "an executable"
        else if d.imported then createImported name .executable d.isGlobal
        else
          createTarget name .executable d.rest d.excluded
            ((if d.win32 then [("WIN32_EXECUTABLE", "ON")] else []) ++
              (if d.bundle then [("MACOSX_BUNDLE", "ON")] else [])))

def declareLibrary (d : Declaration) (name : String) : Step Verdict :=
  if d.imported && d.excluded then
    Step.fail "excludeFromAll with IMPORTED target makes no sense."
  else if d.type = .unknownLibrary ∧ !d.imported then
    Step.fail "UNKNOWN library type used with non-IMPORTED library."
  else if d.imported then
    if d.hasType then createImported name d.type d.isGlobal
    else Step.fail "called with IMPORTED argument but no library type."
  else if d.type = .interfaceLibrary ∧ (Text.cutAt [':', ':'] name.toList).isSome then
    Step.fail ("Invalid name for INTERFACE library target: " ++ name)
  else createTarget name d.type d.rest d.excluded []

def addLibrary : List String → Step Verdict
  | [] => Step.fail wrongCount
  | name :: words => do
    let shared := (← get).isOn "BUILD_SHARED_LIBS"
    let type : TargetType := if shared then .sharedLibrary else .staticLibrary
    match Declaration.ofLibrary { type } words with
    | .error reason => Step.fail reason
    | .ok d =>
      withTargetName name (
        if d.isAlias then declareAlias d name words isLibrary "a library"
        else declareLibrary d name)

inductive CustomPart where
  | nothing
  | command
  | dependency
  | byproduct
  | directory
  | comment
  | pool
  | source
  deriving DecidableEq, Repr

structure CustomTarget where
  part : CustomPart := .command
  hasCommand : Bool := false
  hasByproducts : Bool := false
  hasPool : Bool := false
  usesTerminal : Bool := false
  expandsLists : Bool := false
  sources : List String := []
  deriving DecidableEq, Repr

namespace CustomTarget

def partOf? : String → Option CustomPart
  | "DEPENDS" => some .dependency
  | "BYPRODUCTS" => some .byproduct
  | "WORKING_DIRECTORY" => some .directory
  | "COMMENT" => some .comment
  | "JOB_POOL" => some .pool
  | "SOURCES" => some .source
  | "COMMAND" => some .command
  | "VERBATIM" => some .nothing
  | "USES_TERMINAL" => some .nothing
  | "COMMAND_EXPAND_LISTS" => some .nothing
  | "JOB_SERVER_AWARE" => some .nothing
  | _ => none

def take? (t : CustomTarget) (word : String) : Option CustomTarget :=
  match t.part with
  | .nothing => none
  | .command => some { t with hasCommand := true }
  | .dependency => some t
  | .byproduct => some { t with hasByproducts := true }
  | .directory => some { t with part := .nothing }
  | .comment => some { t with part := .nothing }
  | .pool => some { t with part := .nothing, hasPool := true }
  | .source => some { t with sources := word :: t.sources }

def read? (t : CustomTarget) : List String → Option CustomTarget
  | [] => some t
  | word :: rest =>
    match partOf? word with
    | some part =>
      read? { t with
        part := part,
        usesTerminal := t.usesTerminal || word == "USES_TERMINAL",
        expandsLists := t.expandsLists || word == "COMMAND_EXPAND_LISTS" } rest
    | none => (t.take? word).bind fun t => read? t rest

def refusal? (t : CustomTarget) : Option String :=
  if !t.hasCommand && t.usesTerminal then
    some "USES_TERMINAL may not be specified without any COMMAND"
  else if !t.hasCommand && t.expandsLists then
    some "COMMAND_EXPAND_LISTS may not be specified without any COMMAND"
  else if t.hasPool && t.usesTerminal then some "JOB_POOL is shadowed by USES_TERMINAL."
  else none

end CustomTarget

def addCustomTarget : List String → Step Verdict
  | [] => Step.fail wrongCount
  | name :: words =>
    if name.toList.any fun c => c == '/' || c == '\\' then
      Step.fail ("called with invalid target name \"" ++ name ++
        "\".  Target names may not contain a slash.  Use ADD_CUSTOM_COMMAND to generate files.")
    else
      let included := words.head? == some "ALL"
      match CustomTarget.read? {} (if included then words.tail else words) with
      | none => Step.fail "Wrong syntax. Unknown type of argument."
      | some t =>
        if !t.hasCommand && t.hasByproducts then
          Step.fail "BYPRODUCTS may not be specified without any COMMAND"
        else withTargetName name (
          match t.refusal? with
          | some reason => Step.fail reason
          | none => createTarget name .utility t.sources.reverse (!included) [])

def editTargetPairs (target : String) : List String → Step Bool
  | name :: value :: rest => do
    let (edited, e) := (← get).editTarget target name (.assign value)
    set e
    if edited then editTargetPairs target rest else return false
  | _ => pure true

def editTargets (pairs : List String) : List String → Step Verdict
  | [] => Step.done
  | name :: rest => do
    let e ← get
    if e.targets.isAlias name then Step.fail "can not be used on an ALIAS target."
    else if !e.targets.contains name then
      Step.fail ("Can not find target to add properties to: " ++ name)
    else if ← editTargetPairs name pairs then editTargets pairs rest
    else Step.done

def setTargetProperties (words : List String) : Step Verdict :=
  if words.length < 2 then Step.fail wrongCount
  else
    let names := words.takeWhile (· != "PROPERTIES")
    let pairs := (words.dropWhile (· != "PROPERTIES")).tail
    if pairs.isEmpty then
      Step.fail "called with illegal arguments, maybe missing a PROPERTIES specifier?"
    else if pairs.length % 2 = 1 then Step.fail "called with incorrect number of arguments."
    else editTargets pairs names

def getTargetProperty : List String → Step Verdict
  | [output, target, property] => do
    let e ← get
    if !e.targets.contains target then
      Step.fatal ("get_target_property() called with non-existent target \"" ++ target ++ "\".")
    else
      let value := if property.isEmpty then none else e.targetProperty? target property
      Step.define output (value.getD (output ++ "-NOTFOUND"))
      Step.done
  | _ => Step.fail wrongCount

end CMakeScript.Command
