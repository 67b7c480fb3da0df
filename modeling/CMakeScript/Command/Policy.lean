import CMakeScript.Engine.Policies
/-! The version that a project asks for, and the commands on policies. -/
namespace CMakeScript.Command

def versionRange? (text : String) : Option (String × Option String) :=
  match Text.cutAt ['.', '.', '.'] text.toList with
  | none => some (text, none)
  | some (least, most) =>
    if least.isEmpty || most.isEmpty then none
    else some (String.ofList least, some (String.ofList most))

def halfRange (text : String) : String :=
  "VERSION \"" ++ text ++ "\" does not have a version on both sides of \"...\"."

def leadingNumbers? : List (List Char) → Option (List Nat)
  | [] => some []
  | piece :: rest => do
    let digits := piece.takeWhile Text.isDigit
    if digits.isEmpty then some []
    else
      let n ← Text.natBelow? (Text.bitBound 32) digits
      if digits.length = piece.length then return n :: (← leadingNumbers? rest)
      else some [n]

def piecesUpTo (sep : Char) : Nat → List Char → List (List Char)
  | 0, _ => []
  | 1, cs => [cs]
  | count + 1, cs =>
    match Text.cutAt [sep] cs with
    | none => [cs]
    | some (before, after) => before :: piecesUpTo sep count after

def leadingVersion? (text : String) : Option Version := do
  match ← leadingNumbers? (piecesUpTo '.' 4 text.toList) with
  | major :: minor :: rest => some ⟨major, minor, rest.headD 0⟩
  | _ => none

structure MinimumRequest where
  version : Option String := none
  waiting : Bool := false
  unknown : List String := []
  deriving DecidableEq, Repr

def noVersion : String := "called with no value for VERSION."

def MinimumRequest.read (r : MinimumRequest) : List String → Except String MinimumRequest
  | [] => if r.waiting then .error noVersion else .ok r
  | "VERSION" :: rest => read { r with waiting := true } rest
  | "FATAL_ERROR" :: rest => if r.waiting then .error noVersion else read r rest
  | word :: rest =>
    if r.waiting then read { r with waiting := false, version := some word } rest
    else read { r with unknown := word :: r.unknown } rest

/-- The first word without meaning. It is let pass where a version later than this one could give
it a meaning. -/
def MinimumRequest.stray? (r : MinimumRequest) (most : Option String) : Option String := do
  let word ← r.unknown.getLast?
  let later := (most.bind leadingVersion?).any fun version =>
    Version.engine.compare version == .lt
  if later then none else some ("called with unknown argument \"" ++ word ++ "\".")

def requireVersion (r : MinimumRequest) (least : String) (most : Option String) :
    Step Verdict := do
  Step.define "CMAKE_MINIMUM_REQUIRED_VERSION" least
  match leadingVersion? least with
  | none => Step.fail ("could not parse VERSION \"" ++ least ++ "\".")
  | some version =>
    if version.compare .engine = .gt then
      Step.fatal ("CMake " ++ Text.decimal version.major ++ "." ++ Text.decimal version.minor ++
        " or higher is required.  You are running version " ++ Version.engine.render)
    else match r.stray? most with
      | some reason => Step.fail reason
      | none =>
        if version.compare Engine.oldestVersion = .lt then
          modify (·.issue .authorWarning
            "Compatibility with CMake < 2.4 is not supported by CMake >= 3.0.")
          modify fun e => (e.setPolicyVersion "2.4" most).2
        else modify fun e => (e.setPolicyVersion least most).2
        Step.done

def minimumRequired (words : List String) : Step Verdict :=
  match MinimumRequest.read {} words with
  | .error reason => Step.fail reason
  | .ok r =>
    match r.version with
    | none =>
      match r.stray? none with
      | some reason => Step.fail reason
      | none => Step.done
    | some text =>
      match versionRange? text with
      | none => Step.fail (halfRange text)
      | some (least, most) => requireVersion r least most

def unknownPolicy (word name : String) : String :=
  word ++ " given policy \"" ++ name ++ "\" which is not known to this version of CMake."

def statusWord : PolicyStatus → String
  | .old => "OLD"
  | .warn => ""
  | .new => "NEW"

def setPolicy : List String → Step Verdict
  | [name, word] => do
    let give (status : PolicyStatus) : Step Verdict := do
      let (known, e) := (← get).setPolicyByName name status
      set e
      if known then Step.done else Step.fail "SET failed to set policy."
    if word = "OLD" then give .old
    else if word = "NEW" then give .new
    else Step.fail ("SET given unrecognized policy status \"" ++ word ++ "\"")
  | _ => Step.fail "SET must be given exactly 2 additional arguments."

def askPolicy (word : String) (answer : Engine → CMakeScript.Policy → String) :
    List String → Step Verdict
  | [name, output] => do
    match CMakeScript.Policy.ofName? name with
    | none => Step.fail (unknownPolicy word name)
    | some p =>
      Step.define output (answer (← get) p)
      Step.done
  | _ => Step.fail (word ++ " must be given exactly 2 additional arguments.")

def policyVersion : List String → Step Verdict
  | [] => Step.fail "VERSION not given an argument"
  | [text] => do
    match versionRange? text with
    | none => Step.fail (halfRange text)
    | some (least, most) =>
      modify fun e => (e.setPolicyVersion least most).2
      Step.done
  | _ => Step.fail "VERSION given too many arguments"

def policy : List String → Step Verdict
  | [] => Step.fail "requires at least one argument."
  | "SET" :: rest => setPolicy rest
  | "GET" :: rest => askPolicy "GET" (fun e p => statusWord (e.policy p)) rest
  | "GET_WARNING" :: rest => askPolicy "GET_WARNING" (fun _ p => p.warning) rest
  | "PUSH" :: rest => do
    if rest.isEmpty then
      modify (·.pushPolicy false {})
      Step.done
    else Step.fail "PUSH may not be given additional arguments."
  | "POP" :: rest => do
    if rest.isEmpty then
      modify (·.popPolicy.2)
      Step.done
    else Step.fail "POP may not be given additional arguments."
  | "VERSION" :: rest => policyVersion rest
  | word :: _ => Step.fail ("given unknown first argument \"" ++ word ++ "\"")

end CMakeScript.Command
