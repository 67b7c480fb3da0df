import CMakeScript.Engine.Arguments
import CMakeScript.Engine.Deferred
import CMakeScript.Text.Decimal
/-! The command on the language itself: calling a command by name, now or at the end of a directory,
and evaluating code. Its arguments are expanded one after the other, so that those of a called
command can be left as they were written. -/
namespace CMakeScript.Command

/-- Arguments not yet read: words of an argument that was already expanded, then the rest. -/
structure PendingWords where
  ready : List String := []
  raw : List Argument := []
  deriving DecidableEq, Repr

abbrev Reading := ExceptT Verdict Step

namespace Reading

def refuse {α : Type} (text : String) : Reading α := do
  modify (·.fatalError text)
  throw .done

def expand (arguments : List Argument) : Reading (List String) := do
  match ← Step.values arguments with
  | some values => return values
  | none => throw .done

end Reading

namespace PendingWords

def fromRaw : List Argument → Reading (Option (String × PendingWords))
  | [] => pure none
  | a :: rest => do
    match ← Reading.expand [a] with
    | [] => fromRaw rest
    | word :: ready => return some (word, ⟨ready, rest⟩)

def next (p : PendingWords) : Reading (Option (String × PendingWords)) :=
  match p.ready with
  | word :: ready => pure (some (word, ⟨ready, p.raw⟩))
  | [] => fromRaw p.raw

def finish (p : PendingWords) : Reading (List String) := do
  return p.ready ++ (← Reading.expand p.raw)

end PendingWords

structure DeferOptions where
  directory : Option String := none
  id : Option String := none
  output : Option String := none
  deriving DecidableEq, Repr

inductive LanguageRequest where
  | call (name : String) (arguments : List Argument) (deferred : Option DeferOptions)
  | query (directory : Option String) (words : List String)
  | other (words : List String)
  deriving DecidableEq, Repr

def startsWithCapital (text : String) : Bool :=
  match text.toList with
  | c :: _ => 'A' ≤ c && c ≤ 'Z'
  | [] => false

def deferValue (option missing : String) (given : Bool) (p : PendingWords) :
    Reading (String × PendingWords) := do
  if given then Reading.refuse ("DEFER given multiple " ++ option ++ " arguments")
  else match ← p.next with
    | none => Reading.refuse ("DEFER " ++ option ++ " missing " ++ missing)
    | some (value, p) =>
      if value.isEmpty then Reading.refuse ("DEFER " ++ option ++ " may not be empty")
      else return (value, p)

inductive DeferEnd where
  | call (rest : PendingWords)
  | query (words : List String)

def notFollowed : String := "DEFER must be followed by a CALL argument"

/-- Reads the options. Each one is accepted once, so the rounds are bounded. -/
def deferOptions : Nat → DeferOptions → PendingWords → Reading (DeferOptions × DeferEnd)
  | 0, _, _ => Reading.refuse notFollowed
  | fuel + 1, o, p => do
    match ← p.next with
    | none => Reading.refuse notFollowed
    | some (word, p) =>
      if word = "CALL" then return (o, .call p)
      else if word = "CANCEL_CALL" ∨ word = "GET_CALL_IDS" ∨ word = "GET_CALL" then
        if o.id.isSome || o.output.isSome then
          Reading.refuse ("DEFER " ++ word ++ " does not accept ID or ID_VAR.")
        else return (o, .query (word :: (← p.finish)))
      else if word = "DIRECTORY" then
        let (value, p) ← deferValue word "value" o.directory.isSome p
        let path := Path.full value (← get).sourceDir
        deferOptions fuel { o with directory := some path } p
      else if word = "ID" then
        let (value, p) ← deferValue word "value" o.id.isSome p
        if startsWithCapital value then Reading.refuse "DEFER ID may not start in A-Z."
        else deferOptions fuel { o with id := some value } p
      else if word = "ID_VAR" then
        let (value, p) ← deferValue word "variable name" o.output.isSome p
        deferOptions fuel { o with output := some value } p
      else Reading.refuse ("DEFER unknown option:\n  " ++ word)

def readCall (p : PendingWords) (deferred : Option DeferOptions) : Reading LanguageRequest := do
  match ← p.next with
  | none => Reading.refuse "CALL missing command name"
  | some (name, p) =>
    if p.ready.isEmpty then return .call name p.raw deferred
    else Reading.refuse "CALL command's arguments must be literal"

def readLanguage (arguments : List Argument) : Reading LanguageRequest := do
  match ← PendingWords.next ⟨[], arguments⟩ with
  | none => throw (.failed "called with incorrect number of arguments")
  | some (word, p) =>
    if word = "CALL" then readCall p none
    else if word = "DEFER" then
      match ← p.next with
      | none => Reading.refuse "DEFER requires at least one argument"
      | some (first, rest) =>
        let (o, ending) ← deferOptions 4 {} ⟨first :: rest.ready, rest.raw⟩
        match ending with
        | .call p => readCall p (some o)
        | .query words => return .query o.directory words
    else return .other (word :: (← p.finish))

def notCallable : List String :=
  ["function", "endfunction", "macro", "endmacro", "if", "elseif", "else", "endif", "while",
    "endwhile", "foreach", "endforeach", "block", "endblock"]

def calledCommand (e : Engine) (name : String) (arguments : List Argument) : Command :=
  let line := e.place.lineNumber
  ⟨name, line, line, arguments.map fun a => { a with line := line }⟩

def deferTo (o : DeferOptions) (command : Command) : Step Verdict := do
  match (← get).deferCall o.directory o.id command with
  | .error error => Step.fatal error.message
  | .ok (id, e) =>
    set e
    match o.output with
    | some name => Step.define name id
    | none => pure ()
    Step.done

def cancelDeferred (directory : Option String) (ids : List String) : Step Verdict := do
  match ids.find? startsWithCapital with
  | some id => Step.fatal ("DEFER CANCEL_CALL unknown argument:\n  " ++ id)
  | none =>
    match (← get).deferCancel directory ids with
    | .error error => Step.fatal error.message
    | .ok e =>
      set e
      Step.done

def listDeferred (directory : Option String) : List String → Step Verdict
  | [] => Step.fatal "DEFER GET_CALL_IDS missing output variable"
  | [output] => do
    match (← get).deferIds directory with
    | .error error => Step.fatal error.message
    | .ok (ids, e) =>
      set e
      Step.define output (ListValue.join ids)
      Step.done
  | _ => Step.fatal "DEFER GET_CALL_IDS given too many arguments"

def callText (call : DeferredCall) : String :=
  ListValue.join (call.command.name :: call.command.arguments.map (·.value))

def showDeferred (directory : Option String) : List String → Step Verdict
  | [] => Step.fatal "DEFER GET_CALL missing id"
  | [_] => Step.fatal "DEFER GET_CALL missing output variable"
  | [id, output] => do
    if id.isEmpty then Step.fatal "DEFER GET_CALL id may not be empty"
    else if startsWithCapital id then
      Step.fatal ("DEFER GET_CALL unknown argument:\n  " ++ id)
    else match (← get).deferFind directory id with
      | .error error => Step.fatal error.message
      | .ok found =>
        Step.define output ((found.map callText).getD "")
        Step.done
  | _ => Step.fatal "DEFER GET_CALL given too many arguments"

def askDeferred (directory : Option String) : List String → Step Verdict
  | "CANCEL_CALL" :: ids => cancelDeferred directory ids
  | "GET_CALL_IDS" :: rest => listDeferred directory rest
  | _ :: rest => showDeferred directory rest
  | [] => Step.done

def codeOf : List String → Except String String
  | "CODE" :: parts => .ok (Text.join " " parts)
  | _ :: rest =>
    .error (if rest.contains "CODE" then
      "called with unsupported arguments between EVAL and CODE arguments"
      else "called without CODE argument")
  | [] => .error "called with incorrect number of arguments"

def codePath (e : Engine) : String :=
  e.place.file ++ ":" ++ Text.decimal e.place.lineNumber ++ ":EVAL"

def exitRun : List String → Step Verdict
  | [text] => do
    if (← get).options.mode = .project then
      Step.fatal "EXIT can be used only in SCRIPT mode"
    else match Text.trimmedInt? text with
      | some n => return .transferred (.exiting (n.bmod (Text.bitBound 32))) true
      | none => Step.fatal ("EXIT requires one integral argument, got \"" ++ text ++ "\"")
  | _ => Step.fatal "EXIT requires one argument"

def showLogLevel : List String → Step Verdict
  | [output] => do
    Step.define output (← get).logLevel.name
    Step.done
  | _ => Step.fatal "GET_MESSAGE_LOG_LEVEL expects exactly 1 argument"

end CMakeScript.Command
