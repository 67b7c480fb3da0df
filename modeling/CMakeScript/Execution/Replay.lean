import CMakeScript.Condition
import CMakeScript.Execution.Branch
/-! Running of a block when its closing command arrives. -/
namespace CMakeScript
namespace Runner

def loopHolds (arguments : List Argument) (trace : Backtrace) : Step Bool := do
  match ← Step.words arguments with
  | none => return false
  | some words =>
    match ← Condition.evaluate words trace with
    | .ok holds => return holds
    | .error error =>
      let shown := Text.join "" (words.map fun w => " " ++ Condition.quoted w.value)
      modify (·.fatalErrorAt
        ("had incorrect arguments: " ++ shown ++ "\n" ++ error.message) trace)
      return false

def whileLoop (r : Runner) (arguments : List Argument) (b : OpenBlock Block) (o : Outcome) :
    Run Outcome := do
  let trace := (← get).backtrace.push b.opened
  modify (·.logged .loopEntered)
  let p ← r.passesWhile (loopHolds arguments trace) b.body r.rounds
  modify (·.endLoop)
  return p.forward o

def valueToRestore (e : Engine) (name : String) : Option String :=
  if e.policy .cmp0124 = .new ∧ (e.normal? name).isNone then none else some (e.value name)

def foreachOver {α : Type} (r : Runner) (names : List String) (prepare : α → Engine → Engine)
    (things : List α) (body : List Command) (o : Outcome) : Run Outcome := do
  let e ← get
  let saved := names.map fun name => (name, valueToRestore e name)
  modify (·.logged .loopEntered)
  let p ← r.passes prepare body things
  if p ≠ .fatal then
    modify fun e =>
      (saved.foldl (fun e (name, value) => e.assign name value) e).logged (.loopLeft names)
  modify (·.endLoop)
  return p.forward o

def rows (lists : List (List String)) : List (List (Option String)) :=
  let longest := (lists.map List.length).foldl max 0
  (List.range longest).map fun i => lists.map fun items => items[i]?

def assignRow (names : List String) (row : List (Option String)) (e : Engine) : Engine :=
  (names.zip row).foldl (fun e (name, value) => e.assign name value) e

def foreachRows (r : Runner) (words : List String) (count : Nat) (body : List Command)
    (o : Outcome) : Run Outcome := do
  let e ← get
  let lists := (words.drop count).map fun name =>
    let value := e.value name
    if value.isEmpty then [] else ListValue.splitAll value
  let names :=
    if 1 < count then words.take count
    else (List.range lists.length).map fun i => words.headD "" ++ "_" ++ Text.decimal i
  foreachOver r names (assignRow names) (rows lists) body o

def foreachLoop (r : Runner) (words : List String) (count : Nat) (zip : Bool)
    (body : List Command) (o : Outcome) : Run Outcome :=
  if zip then foreachRows r words count body o
  else match words with
    | [] => Run.halt .undefinedRequest
    | name :: _ =>
      foreachOver r [name] (fun value e => e.define name value) (words.drop count) body o

def scopeBody (r : Runner) : List Command → Outcome → Run Outcome
  | [], o => pure o
  | c :: rest, o => do
    let (_, inner) ← r.run c
    match inner.transfer? with
    | some (.returning names) =>
      modify (·.raiseAll names)
      return o.request (.returning names)
    | some t => return o.request t
    | none => if (← get).fatal then return o else scopeBody r rest o

def defineCommand (kind : DefinitionKind) (name : String) (parameters : List String)
    (b : OpenBlock Block) : Step Bool := do
  let e ← get
  let definition : Definition :=
    { kind, name, parameters, body := b.body, policies := e.recordPolicies,
      file := b.opened.file, line := b.opened.lineNumber }
  match e.registry.define? definition with
  | some registry =>
    set (({ e with registry } : Engine).logged (.defined definition e.statuses))
    return true
  | none =>
    set (e.fatalError ("Built-in flow control command \"" ++ Text.lower name ++
      "\" cannot be overridden."))
    return false

/-- Runs a closed block. False means that the closing command has to be run as a command. -/
def replay (r : Runner) (b : OpenBlock Block) (o : Outcome) : Run (Bool × Outcome) := do
  match b.block with
  | .conditional _ held => return (true, ← r.branch b.opened.file (.start held) b.body o)
  | .whileLoop arguments => return (true, ← whileLoop r arguments b o)
  | .foreachLoop words count zip => return (true, ← foreachLoop r words count zip b.body o)
  | .definition kind name parameters =>
    return (← (defineCommand kind name parameters b).lift, o)
  | .scope policies bindings propagate =>
    let o ← r.scopeBody b.body o
    modify (·.logged .bodyEnded)
    modify (·.closeBlockScopes policies bindings propagate)
    return (true, o)

end Runner
end CMakeScript
