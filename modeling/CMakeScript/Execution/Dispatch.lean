import CMakeScript.Command.Block
import CMakeScript.Command.Language
import CMakeScript.Command.Legacy
import CMakeScript.Command.List
import CMakeScript.Command.Loop
import CMakeScript.Command.Math
import CMakeScript.Command.Message
import CMakeScript.Command.Policy
import CMakeScript.Command.String
import CMakeScript.Command.Target
import CMakeScript.Command.Variables
import CMakeScript.Execution.Call
import CMakeScript.Execution.Include
import CMakeScript.Execution.Replay
/-! Running of one command: it is recorded by an open block, or it closes a block, or it is looked
up and run. Whatever happens in it, the place in the trace, the depth and the mark for errors are
those from before when it is done. -/
namespace CMakeScript

def Verdict.settle (v : Verdict) (o : Outcome) : Run (Bool × Outcome) := do
  match v with
  | done => return (true, o)
  | failed text => return (false, { o with error := text })
  | refused => return (false, o)
  | transferred t succeeded =>
    modify fun e => e.logged (.asked t (e.valuesOf t.names))
    return (succeeded, o.request t)
  | halted => Run.halt .undefinedRequest

namespace Runner

def onWords (arguments : List Argument) (command : List String → Step Verdict) : Run Verdict := do
  match ← (Step.values arguments).lift with
  | some words => (command words).lift
  | none => return .done

def onWordsRun (arguments : List Argument) (command : List String → Run Verdict) :
    Run Verdict := do
  match ← (Step.values arguments).lift with
  | some words => command words
  | none => return .done

def gated (p : Policy) (text : String) (command : Run Verdict) : Run Verdict := do
  match (← get).policy p with
  | .new =>
    modify (·.issue .fatalError text)
    return .done
  | .warn =>
    modify (·.issue .authorWarning p.warning)
    command
  | .old => command

def language (r : Runner) (arguments : List Argument) (o : Outcome) : Run (Bool × Outcome) := do
  let settle (v : Verdict) : Run (Bool × Outcome) := v.settle o
  match ← (Command.readLanguage arguments).run.lift with
  | .error v => settle v
  | .ok (.query directory words) => settle (← (Command.askDeferred directory words).lift)
  | .ok (.call name arguments deferred) =>
    if Command.notCallable.contains (Text.lower name) then
      settle (← (Step.fatal ("invalid command specified: " ++ name)).lift)
    else
      let command := Command.calledCommand (← get) name arguments
      match deferred with
      | none => r.execute command o
      | some options => settle (← (Command.deferTo options command).lift)
  | .ok (.other ("EVAL" :: words)) =>
    match Command.codeOf words with
    | .error reason => settle (← (Step.fatal reason).lift)
    | .ok code =>
      let _ ← r.text code (Command.codePath (← get))
      return (true, o)
  | .ok (.other ("EXIT" :: words)) => settle (← (Command.exitRun words).lift)
  | .ok (.other ("GET_MESSAGE_LOG_LEVEL" :: words)) =>
    settle (← (Command.showLogLevel words).lift)
  | .ok (.other _) => settle (← (Step.fatal "called with unknown meta-operation").lift)

def builtin (r : Runner) (b : Builtin) (arguments : List Argument) : Run Verdict :=
  match b with
  | .ifBlock => (Command.ifBlock arguments).lift
  | .whileLoop => (Command.whileLoop arguments).lift
  | .foreachLoop => onWords arguments Command.foreachLoop
  | .breakLoop => onWords arguments Command.breakLoop
  | .continueLoop => onWords arguments Command.continueLoop
  | .returnCall => onWords arguments Command.returnCall
  | .functionDef => onWords arguments (Command.define .function)
  | .macroDef => onWords arguments (Command.define .macroCall)
  | .scopeBlock => onWords arguments Command.scopeBlock
  | .misplaced m => (Command.misplaced m).lift
  | .includeFile => onWordsRun arguments r.includeCommand
  | .minimumRequired => onWords arguments Command.minimumRequired
  | .policy => onWords arguments Command.policy
  | .language => pure .done
  | .message => onWords arguments Command.message
  | .set => onWords arguments Command.setVariable
  | .unset => onWords arguments Command.unsetVariable
  | .option => onWords arguments Command.option
  | .math => onWords arguments Command.math
  | .list => onWords arguments Command.list
  | .string => onWords arguments Command.string
  | .setProperty => onWords arguments Command.setProperty
  | .getProperty => onWords arguments Command.getProperty
  | .defineProperty => onWords arguments Command.defineProperty
  | .getDirectoryProperty => onWords arguments Command.getDirectoryProperty
  | .setDirectoryProperties => onWords arguments Command.setDirectoryProperties
  | .getCMakeProperty => onWords arguments Command.getCMakeProperty
  | .buildName =>
    gated .cmp0036 "The build_name command should not be called; see CMP0036."
      (onWords arguments Command.buildName)
  | .removed text => (Command.removed text).lift
  | .addSubdirectory => onWordsRun arguments r.subdirectoryCommand
  | .project => onWords arguments Command.project
  | .addExecutable => onWords arguments Command.addExecutable
  | .addLibrary => onWords arguments Command.addLibrary
  | .addCustomTarget => onWords arguments Command.addCustomTarget
  | .setTargetProperties => onWords arguments Command.setTargetProperties
  | .getTargetProperty => onWords arguments Command.getTargetProperty
  | .includeDirectories => onWords arguments Command.includeDirectories
  | .addCompileOptions => onWords arguments (Command.addSettings .compileOptions)
  | .addCompileDefinitions => onWords arguments (Command.addSettings .compileDefinitions)
  | .addDefinitions => onWords arguments Command.addDefinitions
  | .addLinkOptions => onWords arguments (Command.addSettings .linkOptions)
  | .linkDirectories => onWords arguments Command.linkDirectories

def noteSought (b : Builtin) (e : Engine) : Engine :=
  match b with
  | .breakLoop | .continueLoop => e.logged (.loopSought e.inLoop)
  | _ => e

def callable (r : Runner) (target : Callable) (arguments : List Argument) (o : Outcome) :
    Run (Bool × Outcome) := do
  match target with
  | .builtin .language => r.language arguments o
  | .builtin b =>
    modify (noteSought b)
    let v ← r.builtin b arguments
    v.settle o
  | .defined d => r.call d arguments o

def recursionLimit (e : Engine) : Nat :=
  ((e.definition? "CMAKE_MAXIMUM_RECURSION_DEPTH").bind fun text =>
    Text.natBelow? (Text.bitBound 64) text.toList).getD e.options.recursionLimit

def traceLine (e : Engine) (c : Command) : String :=
  e.listFile ++ "(" ++ Text.decimal c.line ++ "):  " ++ c.name ++ "(" ++
    Text.join "" (c.arguments.map fun a => a.value ++ " ") ++ ")\n"

/-- Takes account of how a command ended: errors issued in it, an exit that is under way, and a
failure, which is reported unless an error was. -/
def conclude (c : Command) (succeeded : Bool) (o : Outcome) (e : Engine) :
    (Bool × Outcome) × Engine :=
  let nested := o.nestedError || e.nested.headD false
  let code := match e.options.mode with
    | .script => e.exitCode.orElse fun _ => o.exitCode
    | .project => o.exitCode
  let o := { o with nestedError := nested, exitCode := code }
  if succeeded && !nested then ((true, o), e)
  else
    let e := if nested then e else e.issue .fatalError (c.name ++ " " ++ o.error)
    ((false, o), if e.options.mode = .script then e.setFatal else e)

def invoke (r : Runner) (c : Command) (o : Outcome) : Run (Bool × Outcome) := do
  let e ← get
  let limit := recursionLimit e
  if limit < e.depth then
    modify (·.fatalError ("Maximum recursion depth of " ++ Text.decimal limit ++ " exceeded"))
    return (false, o)
  else match e.registry.findLower? c.lowerName with
    | none =>
      if e.fatal then return (true, o)
      else
        modify (·.fatalError ("Unknown CMake command \"" ++ c.name ++ "\"."))
        return (false, o)
    | some target =>
      if e.fatal then return (true, o)
      else
        if e.options.trace then modify fun e => e.writeErrors (traceLine e c)
        modify (·.logged (.dispatched c))
        let (succeeded, o) ← r.callable target c.arguments o
        modify (·.logged (.returned target))
        let (succeeded, o) ← modifyGet (conclude c succeeded o)
        modify (·.logged (.concluded o.transfer?))
        return (succeeded, o)

def enterCommand (c : Command) (e : Engine) : Engine :=
  { e.pushFrame (.ofCommand c e.listFile) with
    depth := e.depth + 1, nested := false :: e.nested }

def leaveCommand (e : Engine) : Engine :=
  { e.popFrame with depth := e.depth - 1, nested := e.nested.tail }

def perform (r : Runner) (c : Command) (o : Outcome) : Run (Bool × Outcome) := do
  modify (enterCommand c)
  let result ← r.invoke c o
  modify leaveCommand
  return result

def sameArguments (a b : List Argument) : Bool :=
  a.map (fun x => (x.value, x.delimiter)) == b.map (fun x => (x.value, x.delimiter))

def repeatsName (name : Option String) (arguments : List Argument) : Run Bool := do
  match ← (Step.values arguments).lift with
  | none => return false
  | some [] => return true
  | some (first :: _) =>
    match name with
    | some name => return first == name
    | none => Run.halt .undefinedRequest

def closesMatching (block : Block) (arguments : List Argument) : Run Bool :=
  match block with
  | .conditional opening _ => return arguments.isEmpty || sameArguments arguments opening
  | .whileLoop opening => return arguments.isEmpty || sameArguments arguments opening
  | .foreachLoop words _ _ => repeatsName words.head? arguments
  | .definition _ name _ => repeatsName (some name) arguments
  | .scope _ _ _ => return true

def checkClosing (b : OpenBlock Block) (c : Command) : Run Unit := do
  let e ← get
  let trace := e.backtrace.push (.ofCommand c e.listFile)
  let closing := (Frame.ofCommand c b.opened.file).render none
  let warn (text : String) : Run Unit := modify (·.issueAt .authorWarning text trace)
  match b.block with
  | .scope _ _ _ =>
    if !c.arguments.isEmpty then
      warn ("A logical block closing on the line\n  " ++ closing ++
        "\nhas unexpected arguments.")
  | block =>
    if !(← closesMatching block c.arguments) then
      warn ("A logical block opening on the line\n  " ++ b.opened.render none ++
        "\ncloses on the line\n  " ++ closing ++ "\nwith mis-matching arguments.")

def marked (run : Run (Bool × Outcome)) : Run (Bool × Outcome) := do
  let result ← run
  modify Engine.noteStop
  return result

def step (r : Runner) (c : Command) (o : Outcome) : Run (Bool × Outcome) := do
  let e ← get
  let (blocks, capture) := e.blocks.offer c
  set ({ e with blocks }.logged (.offered c))
  match capture with
  | .notBlocked => marked (r.perform c o)
  | .recorded => return (true, o)
  | .closed b =>
    checkClosing b c
    marked do
      let (handled, o) ← r.replay b o
      if handled then return (true, o) else r.perform c o

end Runner

/-- Runs one command, with at most `fuel` commands inside of one another and as many rounds of a
loop. -/
def execute : Nat → Command → Outcome → Run (Bool × Outcome)
  | 0, _, _ => Run.halt .outOfFuel
  | fuel + 1, c, o => Runner.step ⟨execute fuel, fuel⟩ c o

def Runner.ofFuel (fuel : Nat) : Runner := ⟨CMakeScript.execute fuel, fuel⟩

end CMakeScript
