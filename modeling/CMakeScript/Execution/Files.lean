import CMakeScript.Engine.Deferred
import CMakeScript.Execution.Runner
import CMakeScript.ListFile.Parser
/-! Running of list files: in the current scope, included, given as text, or as the file of a
directory of its own, with the calls deferred to its end. -/
namespace CMakeScript
namespace Runner

def commands (r : Runner) : List Command → Run Unit
  | [] => pure ()
  | c :: rest => do
    let (_, inner) ← r.run c
    if (← get).fatal then return
    else if inner.returning then modify (·.raiseAll inner.returned)
    else match inner.exitCode with
      | some code => modify fun e => { e with exitCode := some code }
      | none => commands r rest

def runDeferredCall (r : Runner) (call : DeferredCall) : Run Unit := do
  let (handle, e) := (← get).openScope fun s origin => s.createDeferCall origin call.file
  set (e.logged .deferredBegun)
  let _ ← r.run call.command
  modify fun e => (e.logged .deferredEnded).closeScope handle true

def takeDeferred (i : Nat) (e : Engine) : Option DeferredCall × Engine :=
  match (e.deferredAt e.current).bind (·[i]?) with
  | none => (none, e)
  | some call =>
    (some call, if call.waits then e.changeQueue e.current (.taken i) else e)

/-- Runs the calls of the queue from a position on. They can add further ones. -/
def deferredFrom (r : Runner) : Nat → Nat → Run Unit
  | 0, _ => Run.halt .outOfFuel
  | fuel + 1, i => do
    let (call?, e) := takeDeferred i (← get)
    set e
    match call? with
    | none => return
    | some call =>
      if call.waits then
        runDeferredCall r call
        if (← get).fatal then return else deferredFrom r fuel (i + 1)
      else deferredFrom r fuel (i + 1)

def deferred (r : Runner) (path : String) : Run Unit := do
  modify fun e => (e.changeQueue e.current .begun).pushFrame (.ofDeferred path)
  r.deferredFrom (r.rounds + (← get).queueLength) 0
  modify (·.popFrame)

def fileVariables : List String :=
  ["CMAKE_PARENT_LIST_FILE", "CMAKE_CURRENT_LIST_FILE", "CMAKE_CURRENT_LIST_DIR"]

def file (r : Runner) (f : ListFile) (path : String) (withDeferred : Bool) : Run Unit := do
  let e ← get
  let saved := fileVariables.map fun name => (name, e.definition? name)
  modify fun e => (e.define "CMAKE_CURRENT_LIST_FILE" path).define "CMAKE_CURRENT_LIST_DIR"
    (Path.parent path)
  r.commands f.commands
  modify fun e => e.logged (.fileLeft e.fatal)
  if withDeferred && (← get).exitCode.isNone then r.deferred path
  modify fun e => saved.foldl (fun e (name, value) => e.assign name value) e

/-- The commands of a text. A run does not come back from a text that the parser cannot get
through. -/
def readText (path text : String) : Run (Except SyntaxError ListFile) :=
  match ListFile.parse path text with
  | .error ⟨.outOfFuel, _, _, _⟩ => Run.halt .outOfFuel
  | read => pure read

def parse (path text : String) : Run (Option ListFile) := do
  match ← readText path text with
  | .ok f => return some f
  | .error error =>
    let trace := (← get).backtrace.push ⟨"", path, .line error.line⟩
    modify (·.fatalErrorAt error.fault.message trace)
    return none

def load (path : String) : Run (Option ListFile) := do
  match (← get).platform.read path with
  | .ok text => parse path text
  | .error reason =>
    modify (·.fatalError ("Error reading file \"" ++ path ++ "\": " ++ reason))
    return none

def fileIf (r : Runner) (f? : Option ListFile) (path : String) : Run Bool := do
  match f? with
  | some f =>
    r.file f path false
    return true
  | none => return false

def closeFile (handle : ScopeHandle) (report : Bool) (e : Engine) : Engine :=
  let report := report && !e.fatal
  ((e.closeBarrier report).closeScope handle report).popFrame

def nameParent (e : Engine) : Engine :=
  match e.definition? "CMAKE_CURRENT_LIST_FILE" with
  | some current => e.define "CMAKE_PARENT_LIST_FILE" current
  | none => e

def includeFile (r : Runner) (name : String) (keepPolicies : Bool) : Run Bool := do
  let e ← get
  let path := Path.full name e.sourceDir
  if !e.platform.isFile path then return false
  else
    let e := nameParent e
    let (handle, e) := (e.pushFrame (.ofFile path)).openBarrier.openScope fun s origin =>
      s.createIncludeFile origin path
    let ownPolicies := !keepPolicies && e.policy .cmp0011 == .new
    set (if ownPolicies then e.pushPolicy false {} else e)
    let loaded ← r.fileIf (← load path) path
    let report := loaded && !(← get).fatal
    modify fun e => if ownPolicies then e.popPolicy.2 else e
    modify fun e => ((e.closeBarrier report).closeScope handle report).popFrame
    return loaded

def text (r : Runner) (content name : String) : Run Bool := do
  let e ← get
  let path := Path.full name e.sourceDir
  let (handle, e) := (e.pushFrame (.ofFile path)).openScope fun s origin =>
    s.createInlineFile origin path
  set e.openBarrier
  let loaded ← r.fileIf (← parse name content) path
  modify (closeFile handle loaded)
  return loaded

def directoryFile (r : Runner) (f : ListFile) (path : String) : Run Unit := do
  let e := (← get).pushFrame (.ofFile path)
  let e := { e with scopes := e.scopes.setListFile e.snapshot path }
  let e := e.define "CMAKE_PARENT_LIST_FILE" path
  let (handle, e) := e.openScope Scopes.createPolicyScope
  set (e.openBarrier.changeQueue e.current .opened)
  r.file f path true
  modify fun e => e.changeQueue e.current .closed
  modify (closeFile handle true)

structure DirectoryMarks where
  excluded : Bool := false
  isSystem : Bool := false
  deriving DecidableEq, Repr

def DirectoryMarks.apply (m : DirectoryMarks) (p : Properties) : Properties :=
  let p := if m.excluded then p.insert "EXCLUDE_FROM_ALL" "TRUE" else p
  if m.isSystem then p.insert "SYSTEM" "TRUE" else p

def enterDirectory (id : Nat) (e : Engine) : Engine :=
  { e with
    backtrace := {},
    runs := e.runs.push { snapshot := id },
    current := e.runs.size,
    loops := 0 :: e.loops }

def leaveDirectory (outer e : Engine) : Engine :=
  { e with loops := e.loops.tail, current := outer.current, backtrace := outer.backtrace }

def inDirectory (r : Runner) (id : Nat) (path : String) : Run Unit := do
  let outer ← get
  set ((enterDirectory id outer).pushFrame (.ofFile path))
  match ← load path with
  | some f =>
    modify (·.popFrame)
    r.directoryFile f path
  | none => pure ()
  modify (leaveDirectory outer)

def subdirectory (r : Runner) (source binary : String) (marks : DirectoryMarks) : Run Unit := do
  let e ← get
  match e.scopes.createDirectory e.snapshot with
  | .error error => set (e.internalError error)
  | .ok (scopes, id) =>
    let scopes := (scopes.setLocations id source binary).updateDirectory id fun d =>
      { d with properties := marks.apply d.properties }
    let e := { e with scopes }
    let path := source ++ "/CMakeLists.txt"
    if e.platform.isPresent path then
      set e
      r.inDirectory id path
    else
      set (e.issue .fatalError ("The source directory\n  " ++ source ++
        "\ndoes not contain a CMakeLists.txt file."))

end Runner
end CMakeScript
