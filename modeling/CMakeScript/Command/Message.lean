import CMakeScript.Engine.Messages
/-! The command that shows messages. Its first argument may choose how: as a diagnostic, as a status
line, or as the announcement or conclusion of a check. -/
namespace CMakeScript.Command

inductive Check where
  | start
  | pass
  | fail
  deriving DecidableEq, Repr

inductive MessageMode where
  | diagnostic (kind : MessageKind) (level : LogLevel) (fatal : Bool)
  | notice
  | status (level : LogLevel)
  | check (c : Check)
  deriving DecidableEq, Repr

namespace MessageMode

def level : MessageMode → LogLevel
  | diagnostic _ level _ => level
  | notice => .notice
  | status level => level
  | check _ => .status

inductive Reading where
  | mode (m : MessageMode)
  | switchedOff
  | text
  deriving DecidableEq, Repr

def authorWarning (e : Engine) : Reading :=
  if e.isDefined "CMAKE_SUPPRESS_DEVELOPER_ERRORS" &&
      !e.isOn "CMAKE_SUPPRESS_DEVELOPER_ERRORS" then
    .mode (.diagnostic .authorError .error true)
  else if e.isOn "CMAKE_SUPPRESS_DEVELOPER_WARNINGS" then .switchedOff
  else .mode (.diagnostic .authorWarning .warning false)

def deprecation (e : Engine) : Reading :=
  if e.isOn "CMAKE_ERROR_DEPRECATED" then .mode (.diagnostic .deprecationError .error true)
  else if !e.isDefined "CMAKE_WARN_DEPRECATED" || e.isOn "CMAKE_WARN_DEPRECATED" then
    .mode (.diagnostic .deprecationWarning .warning false)
  else .switchedOff

def read (e : Engine) : String → Reading
  | "SEND_ERROR" => .mode (.diagnostic .fatalError .error false)
  | "FATAL_ERROR" => .mode (.diagnostic .fatalError .error true)
  | "WARNING" => .mode (.diagnostic .warning .warning false)
  | "AUTHOR_WARNING" => authorWarning e
  | "DEPRECATION" => deprecation e
  | "CHECK_START" => .mode (.check .start)
  | "CHECK_PASS" => .mode (.check .pass)
  | "CHECK_FAIL" => .mode (.check .fail)
  | "STATUS" => .mode (.status .status)
  | "VERBOSE" => .mode (.status .verbose)
  | "DEBUG" => .mode (.status .debug)
  | "TRACE" => .mode (.status .trace)
  | "NOTICE" => .mode .notice
  | _ => .text

end MessageMode

def indentMessage (e : Engine) (text : String) : String :=
  let indent := Text.join "" (ListValue.split (e.value "CMAKE_MESSAGE_INDENT"))
  indent ++ Text.replaceAll "\n" ("\n" ++ indent) text

def showStatus (text : String) : Step Unit :=
  modify fun e => e.writeOutput ("-- " ++ indentMessage e text ++ "\n")

def concludeCheck (keyword text : String) : Step Unit := do
  match (← get).checks with
  | [] =>
    modify (·.display .authorWarning ("Ignored " ++ keyword ++ " without CHECK_START"))
  | started :: rest => do
    modify fun e => { e with checks := rest }
    showStatus (started ++ " - " ++ text)

def showMessage (mode : MessageMode) (text : String) : Step Unit := do
  match mode with
  | .diagnostic kind _ fatal =>
    modify (·.display kind text)
    if fatal then modify Engine.setFatal
  | .notice => modify fun e => e.writeErrors (indentMessage e text ++ "\n")
  | .status _ => showStatus text
  | .check .start =>
    showStatus text
    modify fun e => { e with checks := text :: e.checks }
  | .check .pass => concludeCheck "CHECK_PASS" text
  | .check .fail => concludeCheck "CHECK_FAIL" text

def showAtLevel (mode : MessageMode) (parts : List String) : Step Verdict := do
  if mode.level.rank ≤ (← get).logLevel.rank then showMessage mode (Text.join "" parts)
  Step.done

def message : List String → Step Verdict
  | [] => Step.fail "called with incorrect number of arguments"
  | first :: rest => do
    match MessageMode.read (← get) first with
    | .mode m => showAtLevel m rest
    | .switchedOff => Step.done
    | .text => showAtLevel .notice (first :: rest)

end CMakeScript.Command
