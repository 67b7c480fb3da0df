import CMakeScript.Execution.Dispatch
import CMakeScript.Files
/-! Starting of a run: a script, or the configuration of a source tree. -/
namespace CMakeScript

inductive StartError where
  | unreadable (path reason : String)
  | faulty (path : String) (error : SyntaxError)
  deriving DecidableEq, Repr

namespace StartError

def message : StartError → String
  | unreadable path reason => "Failed to read \x60" ++ path ++ "\x60: " ++ reason
  | faulty path error => "Error in cmake code at\n" ++ path ++ ":" ++ Text.decimal error.line

end StartError

namespace Engine

def cacheOption? (text : String) : Option (String × CacheType × String) := do
  let (key, value) ← Text.cutAt ['='] text.toList
  if key.isEmpty then none
  else
    let value := String.ofList value
    match Text.cutAt [':'] key with
    | none => some (String.ofList key, .uninitialized, value)
    | some (name, type) =>
      let type ← CacheType.ofKeyword? (Text.upper (String.ofList type))
      some (String.ofList name, type, value)

def warningEntries (w : WarningOptions) : List (String × String) :=
  (if w.suppressDev then [("CMAKE_SUPPRESS_DEVELOPER_WARNINGS", "TRUE")] else []) ++
    (if w.devAsErrors then [("CMAKE_SUPPRESS_DEVELOPER_ERRORS", "FALSE")] else []) ++
    (if w.suppressDeprecated then [("CMAKE_WARN_DEPRECATED", "FALSE")] else []) ++
    (if w.deprecatedAsErrors then [("CMAKE_ERROR_DEPRECATED", "TRUE")] else [])

def cacheOption (e : Engine) (text : String) : Engine :=
  match cacheOption? text with
  | some (name, type, value) =>
    { e with cache :=
        e.cache.add name value "No help, variable specified on the command line." type }
  | none => { e with errorOccurred := true }

def start (options : Options) (platform : Platform)
    (environment : List (String × String)) : Engine :=
  let (scopes, base) := ({} : Scopes).createBase
  let e : Engine :=
    { options, scopes, platform,
      registry := { mode := options.mode },
      runs := #[{ snapshot := base }],
      environment := environment.foldl (fun m (name, value) => m.insert name value) {} }
  let cache := (warningEntries options.warnings).foldl
    (fun c (name, value) => Cache.add c name value "" .internal) e.cache
  options.cacheEntries.foldl cacheOption { e with cache }

def badCacheOptions (options : Options) : List String :=
  options.cacheEntries.filter fun text => (cacheOption? text).isNone

def placeTop (e : Engine) (source binary : String) : Engine :=
  let e := { e with scopes := e.scopes.setLocations e.snapshot source binary }
  let e := (e.define "CMAKE_SOURCE_DIR" source).define "CMAKE_BINARY_DIR" binary
  { e with topSource := some source }

end Engine

namespace Runner

def script (r : Runner) (f : ListFile) (path : String) : Run Unit := do
  let e ← get
  let e := e.placeTop e.platform.currentDirectory e.platform.currentDirectory
  let e := if e.options.mode = .script then e.define "CMAKE_SCRIPT_MODE_FILE" path else e
  let e := (e.changeQueue e.current .opened).pushFrame (.ofFile path)
  let (handle, e) := e.openScope fun s origin => s.createInlineFile origin path
  set e.openBarrier
  r.file f path true
  modify (closeFile handle true)
  modify fun e => e.changeQueue e.current .closed

def runSource (r : Runner) (path source : String) : Run (Except StartError Int) := do
  match ← readText path source with
  | .error error => return .error (.faulty path error)
  | .ok f =>
    r.script f path
    return .ok (← get).finalExitCode

def runScript (r : Runner) (name : String) : Run (Except StartError Int) := do
  let e ← get
  let path := Path.full name e.platform.currentDirectory
  match e.platform.read path with
  | .error reason => return .error (.unreadable path reason)
  | .ok source => r.runSource path source

def configure (r : Runner) (source binary : String) : Run (Except StartError Int) := do
  let e ← get
  let source := Path.full source e.platform.currentDirectory
  let binary := Path.full binary e.platform.currentDirectory
  let path := source ++ "/CMakeLists.txt"
  match e.platform.read path with
  | .error reason => return .error (.unreadable path reason)
  | .ok text =>
    match ← readText path text with
    | .error error => return .error (.faulty path error)
    | .ok f =>
      set (e.placeTop source binary)
      r.directoryFile f path
      return .ok (← get).finalExitCode

end Runner
end CMakeScript
