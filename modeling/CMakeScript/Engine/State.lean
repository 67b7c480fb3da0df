import CMakeScript.BlockStack
import CMakeScript.Cache
import CMakeScript.Diagnostic
import CMakeScript.Engine.Registry
import CMakeScript.Outcome
import CMakeScript.Platform
import CMakeScript.Scopes
import CMakeScript.Target
/-! The state of a run: scopes, commands, cache, properties, targets, what is open, and what was
written. -/
namespace CMakeScript

/-- Name of a scope that was opened, given back when it is closed; nothing if opening failed. -/
abbrev ScopeHandle := Option Nat

inductive Block where
  | conditional (arguments : List Argument) (held : Bool)
  | whileLoop (arguments : List Argument)
  | foreachLoop (words : List String) (count : Nat) (zip : Bool)
  | definition (kind : DefinitionKind) (name : String) (parameters : List String)
  | scope (policies bindings : Option ScopeHandle) (propagate : List String)
  deriving DecidableEq, Repr

structure DeferredCall where
  /-- Empty once the call was run or cancelled. -/
  id : String
  file : String
  command : Command
  deriving DecidableEq, Repr, Inhabited

namespace DeferredCall

def waits (call : DeferredCall) : Bool := !call.id.isEmpty

def settled (call : DeferredCall) : DeferredCall := { call with id := "" }

end DeferredCall

inductive QueueChange where
  | opened
  | deferred (call : DeferredCall)
  | cancelled (ids : List String)
  | listed (ids : List String)
  | begun
  | taken (place : Nat)
  | closed
  deriving DecidableEq, Repr

def QueueChange.apply : QueueChange → Option (List DeferredCall) → Option (List DeferredCall)
  | opened, _ => some []
  | deferred call, queue => queue.map (· ++ [call])
  | cancelled ids, queue =>
    queue.map (·.map fun call => if ids.contains call.id then call.settled else call)
  | listed _, queue => queue
  | begun, queue => queue
  | taken place, queue => queue.map (·.modify place DeferredCall.settled)
  | closed, _ => none

structure DirectoryRun where
  snapshot : Nat
  deferred : Option (List DeferredCall) := none
  deriving DecidableEq, Repr, Inhabited

inductive Stream where
  | output
  | errors
  deriving DecidableEq, Repr

structure Written where
  stream : Stream
  text : String
  kind : Option MessageKind := none
  deriving DecidableEq, Repr

inductive Event where
  | offered (c : Command)
  | dispatched (c : Command)
  | returned (target : Callable)
  | blockOpened
  | barrierSet
  | barrierTaken
  | scopeOpened (id : Nat)
  | scopeClosed (id : Nat)
  | bodyEnded
  /-- A command asked for a transfer of control, with the values of the names it takes along. -/
  | asked (t : Transfer) (values : List (String × Option String))
  | concluded (t : Option Transfer)
  /-- A function ended. If it was left by a return, the names have these values in its caller. -/
  | functionLeft (values : Option (List (String × Option String)))
  | callGivenUp
  | defined (d : Definition) (statuses : List (Policy × PolicyStatus))
  /-- The commands of a function or macro are run from now on. The statuses are those at the place
  of the call, and those that its commands start from. -/
  | called (d : Definition) (outside inside : List (Policy × PolicyStatus))
  | loopEntered
  | loopEnded
  /-- A command that needs a loop around it came up, inside of one or not. -/
  | loopSought (found : Bool)
  | loopLeft (names : List String)
  | fileLeft (fatal : Bool)
  | deferredBegun
  | deferredEnded
  | queue (directory : Nat) (change : QueueChange)
  | tested
  | stopped
  deriving DecidableEq, Repr

structure LogEntry where
  event : Event
  blocks : BlockStack Block
  deriving DecidableEq, Repr

structure DirectoryRecord where
  children : List Nat
  properties : Properties
  targetNames : List String
  project : String
  contents : PerContent ContentLog

def Directory.record (d : Directory) : DirectoryRecord :=
  ⟨d.children, d.properties, d.targetNames, d.project, d.contents⟩

def Scopes.records (s : Scopes) (id : Nat) : Option DirectoryRecord :=
  (s.directories.get? id).map Directory.record

/-- What commands change for good: all but variables, policies and what is open. -/
structure Lasting where
  cache : Cache
  globals : Properties
  declarations : PropertyDeclarations
  targets : Targets
  environment : Std.TreeMap String String
  directories : Nat → Option DirectoryRecord
  output : List Written

structure Engine where
  options : Options := {}
  scopes : Scopes := {}
  registry : Registry
  cache : Cache := {}
  globals : Properties := {}
  declarations : PropertyDeclarations := {}
  targets : Targets := {}
  environment : Std.TreeMap String String := {}
  platform : Platform := {}
  topSource : Option String := none
  written : Array Written := #[]
  runs : Array DirectoryRun := #[]
  current : Nat := 0
  backtrace : Backtrace := {}
  depth : Nat := 0
  blocks : BlockStack Block := {}
  /-- Loops open since each loop barrier, the innermost barrier first. -/
  loops : List Nat := [0]
  /-- For each command being run, innermost first, whether it issued an error. -/
  nested : List Bool := []
  checks : List String := []
  quoteWarnings : List (String × Nat) := []
  fatal : Bool := false
  errorOccurred : Bool := false
  exitCode : Option Int := none
  /-- The latest entry first. -/
  log : List LogEntry := []
  stops : List Lasting := []

inductive Halt where
  | outOfFuel
  | undefinedRequest
  | interrupted (c : Command)
  deriving DecidableEq, Repr

inductive Verdict where
  | done
  | failed (text : String)
  | refused
  | transferred (t : Transfer) (succeeded : Bool)
  | halted
  deriving DecidableEq, Repr

abbrev Step := StateM Engine

/-- Steps that may run other commands. A run that stops without an answer keeps the state it had
come to. -/
abbrev Run := StateT Engine (Except (Halt × Engine))

namespace Step

def lift {α : Type} (s : Step α) : Run α := fun e => .ok (s e)

end Step

namespace Run

def halt {α : Type} (h : Halt) : Run α := fun e => .error (h, e)

end Run

namespace Engine

def snapshot (e : Engine) : Nat := ((e.runs[e.current]?).map (·.snapshot)).getD 0

def setSnapshot (e : Engine) (id : Nat) : Engine :=
  { e with runs := e.runs.modify e.current fun run => { run with snapshot := id } }

def place (e : Engine) : Frame := (e.backtrace.top?).getD {}

def pushFrame (e : Engine) (frame : Frame) : Engine :=
  { e with backtrace := e.backtrace.push frame }

def popFrame (e : Engine) : Engine := { e with backtrace := e.backtrace.pop }

def listFile (e : Engine) : String := e.scopes.listFile e.snapshot

def sourceDir (e : Engine) : String :=
  ((e.scopes.directory? e.snapshot).map (·.source)).getD ""

def binaryDir (e : Engine) : String :=
  ((e.scopes.directory? e.snapshot).map (·.binary)).getD ""

def writeOutput (e : Engine) (text : String) : Engine :=
  { e with written := e.written.push { stream := .output, text } }

def writeErrors (e : Engine) (text : String) : Engine :=
  { e with written := e.written.push { stream := .errors, text } }

def writeDiagnostic (e : Engine) (kind : MessageKind) (text : String) : Engine :=
  { e with written := e.written.push { stream := .errors, text, kind := some kind } }

def logged (e : Engine) (event : Event) : Engine := { e with log := ⟨event, e.blocks⟩ :: e.log }

def changeQueue (e : Engine) (i : Nat) (change : QueueChange) : Engine :=
  if i < e.runs.size then
    { e with runs := e.runs.modify i fun run =>
      { run with deferred := change.apply run.deferred } }.logged (.queue i change)
  else e

def lasting (e : Engine) : Lasting :=
  { cache := e.cache, globals := e.globals, declarations := e.declarations, targets := e.targets,
    environment := e.environment,
    directories := e.scopes.records,
    output := e.written.toList.filter (·.stream == .output) }

def noteStop (e : Engine) : Engine :=
  if e.fatal then { e.logged .stopped with stops := e.lasting :: e.stops } else e

def directoryAt? (e : Engine) (path : String) : Option Nat :=
  e.runs.toList.findSome? fun run => do
    let d ← e.scopes.directory? run.snapshot
    if d.source = path then some d.current else none

end Engine
end CMakeScript
