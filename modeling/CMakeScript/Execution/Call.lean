import CMakeScript.Engine.Arguments
import CMakeScript.Execution.Runner
/-! Calls of functions and macros. A function has variables of its own; a macro works in those of
its caller, and its arguments take the place of references in the text of its body. -/
namespace CMakeScript
namespace Runner

inductive BodyEnd where
  | finished
  | transferred (t : Transfer)
  | failed
  deriving DecidableEq, Repr

def body (r : Runner) : List Command → Run BodyEnd
  | [] => pure .finished
  | c :: rest => do
    let (succeeded, inner) ← r.run c
    if !succeeded || inner.nestedError then return .failed
    else match inner.transfer? with
      | some t => return .transferred t
      | none => body r rest

def functionBody (r : Runner) : List Command → Run BodyEnd
  | [] => pure .finished
  | c :: rest => do
    let (succeeded, inner) ← r.run c
    if !succeeded || inner.nestedError then return .failed
    else if inner.returning then return .transferred (.returning inner.returned)
    else match inner.exitCode with
      | some code => return .transferred (.exiting code)
      | none => functionBody r rest

def functionVariables (d : Definition) (values : List String) : List (String × String) :=
  [("ARGC", Text.decimal values.length)] ++
    (values.zipIdx.map fun (value, i) => ("ARGV" ++ Text.decimal i, value)) ++
    d.parameters.zip values ++
    [("ARGV", ListValue.join values), ("ARGN", ListValue.join (values.drop d.parameters.length)),
      ("CMAKE_CURRENT_FUNCTION", d.name), ("CMAKE_CURRENT_FUNCTION_LIST_FILE", d.file),
      ("CMAKE_CURRENT_FUNCTION_LIST_DIR", Path.parent d.file),
      ("CMAKE_CURRENT_FUNCTION_LIST_LINE", Text.decimal d.line)]

def enterFunction (d : Definition) (values : List String) (e : Engine) : ScopeHandle × Engine :=
  let (handle, inner) := e.openFunction d.file d.policies
  let inner := (functionVariables d values).foldl (fun e (name, value) => e.define name value) inner
  (handle, inner.logged (.called d e.statuses inner.statuses))

def callFunction (r : Runner) (d : Definition) (values : List String) (o : Outcome) :
    Run (Bool × Outcome) := do
  let (handle, e) := enterFunction d values (← get)
  set e
  match ← r.functionBody d.body with
  | .failed =>
    modify fun e => ((e.logged .callGivenUp).closeFunction handle false).logged (.functionLeft none)
    return (false, { o with nestedError := true })
  | .finished =>
    modify fun e => (e.closeFunction handle true).logged (.functionLeft none)
    return (true, o)
  | .transferred (.returning names) =>
    modify fun e => (e.raiseAll names).closeFunction handle true
    modify fun e => e.logged (.functionLeft (some (e.valuesOf names)))
    return (true, o)
  | .transferred t =>
    modify fun e => (e.closeFunction handle true).logged (.functionLeft none)
    return (true, o.request t)

def reference (name : String) : String := "$\x7b" ++ name ++ "\x7d"

def fillIn (d : Definition) (values : List String) (text : String) : String :=
  let fixed := d.parameters.zip values ++
    [("ARGC", Text.decimal values.length),
      ("ARGN", ListValue.join (values.drop d.parameters.length)),
      ("ARGV", ListValue.join values)]
  let fill := fun (text : String) (entry : String × String) =>
    Text.replaceAll (reference entry.1) entry.2 text
  let text := fixed.foldl fill text
  if (Text.cutAt ['$', '\x7b', 'A', 'R', 'G', 'V'] text.toList).isSome then
    (values.zipIdx.map fun (value, i) => ("ARGV" ++ Text.decimal i, value)).foldl fill text
  else text

def instantiate (d : Definition) (values : List String) (c : Command) : Command :=
  { c with arguments := c.arguments.map fun a =>
    if a.delimiter = .bracket then a else { a with value := fillIn d values a.value } }

def enterMacro (d : Definition) (e : Engine) : ScopeHandle × Engine :=
  let (handle, inner) := e.openMacro d.file d.policies
  (handle, inner.logged (.called d e.statuses inner.statuses))

def callMacro (r : Runner) (d : Definition) (values : List String) (o : Outcome) :
    Run (Bool × Outcome) := do
  let (handle, e) := enterMacro d (← get)
  set e
  match ← r.body (d.body.map (instantiate d values)) with
  | .failed =>
    modify fun e => (e.logged .callGivenUp).closeMacro handle false
    return (false, { o with nestedError := true })
  | .finished =>
    modify (·.closeMacro handle true)
    return (true, o)
  | .transferred t =>
    modify (·.closeMacro handle true)
    return (true, o.request t)

def kindName : DefinitionKind → String × String
  | .function => ("Function", "function")
  | .macroCall => ("Macro", "macro")

def call (r : Runner) (d : Definition) (arguments : List Argument) (o : Outcome) :
    Run (Bool × Outcome) := do
  match ← (Step.values arguments).lift with
  | none => return (true, o)
  | some values =>
    if values.length < d.parameters.length then
      let (capital, word) := kindName d.kind
      let error := capital ++ " invoked with incorrect arguments for " ++ word ++ " named: " ++ d.name
      return (false, { o with error := error })
    else match d.kind with
      | .function => callFunction r d values o
      | .macroCall => callMacro r d values o

end Runner
end CMakeScript
