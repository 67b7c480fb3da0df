import CMakeScript.Options
/-! The arguments of the program: what is to be run, and with which options. -/
namespace CMakeScript

structure Invocation where
  script : Option String := none
  source : Option String := none
  binary : Option String := none
  path : Option String := none
  entries : List String := []
  warnings : List String := []
  trace : Bool := false
  logLevel : Option LogLevel := none
  deriving DecidableEq, Repr

inductive UsageError where
  | missingValue (flag : String)
  | unknownFlag (flag : String)
  | badLevel (text : String)
  | twice (flag : String)
  | extraPath (path : String)
  | conflict
  deriving DecidableEq, Repr

namespace UsageError

def message : UsageError → String
  | missingValue flag => "a value is required for " ++ flag
  | unknownFlag flag => "unexpected argument " ++ flag
  | badLevel text => "invalid log level " ++ text
  | twice flag => flag ++ " cannot be used multiple times"
  | extraPath path => "unexpected argument " ++ path
  | conflict => "-P cannot be used with a source directory"

end UsageError

namespace Invocation

def once (flag value : String) (before : Option String) : Except UsageError (Option String) :=
  if before.isSome then .error (.twice flag) else .ok (some value)

def take (v : Invocation) (flag value : String) : Except UsageError Invocation :=
  match flag with
  | "-P" => do return { v with script := ← once flag value v.script }
  | "-S" => do return { v with source := ← once flag value v.source }
  | "-B" => do return { v with binary := ← once flag value v.binary }
  | "-D" => .ok { v with entries := value :: v.entries }
  | "-W" => .ok { v with warnings := value :: v.warnings }
  | "--log-level" =>
    if v.logLevel.isSome then .error (.twice flag)
    else match LogLevel.ofText? value with
      | some level => .ok { v with logLevel := some level }
      | none => .error (.badLevel value)
  | _ => .error (.unknownFlag flag)

def valueFlags : List String := ["-P", "-S", "-B", "-D", "-W", "--log-level"]

def glued? (argument : String) : Option (String × String) :=
  valueFlags.findSome? fun flag => do
    let rest ← Text.stripStart? argument flag
    match Text.stripStart? rest "=" with
    | some value => some (flag, value)
    | none => if flag = "--log-level" ∨ rest.isEmpty then none else some (flag, rest)

def takePath (v : Invocation) (path : String) : Except UsageError Invocation :=
  if v.path.isSome then .error (.extraPath path) else .ok { v with path := some path }

def readFrom (v : Invocation) (onlyPaths : Bool) : List String → Except UsageError Invocation
  | [] => .ok v
  | argument :: rest => do
    if onlyPaths then readFrom (← v.takePath argument) true rest
    else if argument = "--" then readFrom v true rest
    else if argument = "--trace" then
      if v.trace then .error (.twice argument) else readFrom { v with trace := true } false rest
    else if valueFlags.contains argument then
      match rest with
      | [] => .error (.missingValue argument)
      | value :: rest => readFrom (← v.take argument value) false rest
    else match glued? argument with
      | some (flag, value) => readFrom (← v.take flag value) false rest
      | none =>
        if Text.startsWith argument "-" && argument != "-" then .error (.unknownFlag argument)
        else readFrom (← v.takePath argument) false rest

def read (arguments : List String) : Except UsageError Invocation := do
  let v ← readFrom {} false arguments
  if v.script.isSome && (v.source.isSome || v.path.isSome) then .error .conflict else .ok v

def flags (v : Invocation) : List String := v.warnings.reverse.map ("-W" ++ ·)

def options (v : Invocation) : Options :=
  { mode := if v.script.isSome then .script else .project,
    trace := v.trace, logLevel := v.logLevel, cacheEntries := v.entries.reverse,
    warnings := v.flags.foldl (fun w flag => (w.withFlag? flag).getD w) {} }

def unknownFlags (v : Invocation) : List String :=
  v.flags.filter fun flag => (({} : WarningOptions).withFlag? flag).isNone

def sourceDirectory (v : Invocation) : String := (v.source.orElse fun _ => v.path).getD "."

def binaryDirectory (v : Invocation) : String := v.binary.getD "."

end Invocation
end CMakeScript
