import CMakeScript.Engine.Variables
/-! Diagnostics of a run. A fatal message marks the command that issued it as failed; a message
shown as an error makes the exit code nonzero. -/
namespace CMakeScript.Engine

def warnings (e : Engine) : WarningOptions :=
  { suppressDev := (e.definition? "CMAKE_SUPPRESS_DEVELOPER_WARNINGS").any ListValue.isOn,
    devAsErrors := (e.definition? "CMAKE_SUPPRESS_DEVELOPER_ERRORS").any ListValue.isOff,
    suppressDeprecated := (e.definition? "CMAKE_WARN_DEPRECATED").any ListValue.isOff,
    deprecatedAsErrors := (e.definition? "CMAKE_ERROR_DEPRECATED").any ListValue.isOn }

def markNested (e : Engine) : Engine :=
  match e.nested with
  | [] => e
  | _ :: rest => { e with nested := true :: rest }

def display (e : Engine) (kind : MessageKind) (text : String) : Engine :=
  let e := e.writeDiagnostic kind (Diagnostic.format kind text e.backtrace e.topSource)
  if kind.isError then { e with errorOccurred := true } else e

def fullText (kind : MessageKind) (text : String) : String :=
  if kind = .internalError then text ++ "\nNative backtrace:\n" else text

def issueAt (e : Engine) (kind : MessageKind) (text : String) (trace : Backtrace) : Engine :=
  let e := if kind = .fatalError ∨ kind = .internalError then e.markNested else e
  match kind.shown? e.warnings with
  | none => e
  | some shown =>
    let e := e.writeDiagnostic shown
      (Diagnostic.format shown (fullText kind text) trace e.topSource)
    if shown.isError then { e with errorOccurred := true } else e

def issue (e : Engine) (kind : MessageKind) (text : String) : Engine :=
  e.issueAt kind text e.backtrace

def setFatal (e : Engine) : Engine := { e with fatal := true, errorOccurred := true }

def fatalError (e : Engine) (text : String) : Engine := (e.issue .fatalError text).setFatal

def fatalErrorAt (e : Engine) (text : String) (trace : Backtrace) : Engine :=
  (e.issueAt .fatalError text trace).setFatal

def internalError (e : Engine) (error : ScopeError) : Engine :=
  (e.issue .internalError error.message).setFatal

def finalExitCode (e : Engine) : Int :=
  match e.exitCode with
  | some code => code
  | none => if e.errorOccurred || e.fatal then 1 else 0

def logLevel (e : Engine) : LogLevel :=
  match e.options.logLevel with
  | some level => level
  | none => ((e.definition? "CMAKE_MESSAGE_LOG_LEVEL").bind LogLevel.ofText?).getD .status

end CMakeScript.Engine
namespace CMakeScript.Step

def done : Step Verdict := pure .done

def fail (text : String) : Step Verdict := pure (.failed text)

def fatal (text : String) : Step Verdict := do
  modify (·.fatalError text)
  pure .done

def failFatally (text : String) : Step Verdict := do
  modify Engine.setFatal
  pure (.failed text)

def define (name value : String) : Step Unit := modify (·.define name value)

end CMakeScript.Step
