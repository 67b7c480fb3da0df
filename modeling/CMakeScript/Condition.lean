import CMakeScript.Engine.Arguments
import CMakeScript.Engine.Policies
import CMakeScript.Text.Decimal
/-! Conditions of branches and loops. A list of words is reduced to one word in fixed rounds:
parentheses, tests with one operand, operators between two operands, negation, and last the
logical operators, which have equal precedence. -/
namespace CMakeScript

inductive ConditionError where
  | mismatchedParenthesis
  | badPattern (pattern : String)
  | unknownArguments
  deriving DecidableEq, Repr

namespace ConditionError

def message : ConditionError → String
  | mismatchedParenthesis => "mismatched parenthesis in condition"
  | badPattern pattern => "Regular expression \"" ++ pattern ++ "\" cannot compile"
  | unknownArguments => "Unknown arguments specified"

end ConditionError

namespace Condition

inductive Comparison where
  | less
  | lessEqual
  | greater
  | greaterEqual
  | equal
  deriving DecidableEq, Repr

def Comparison.holds : Comparison → Ordering → Bool
  | less, o => o == .lt
  | lessEqual, o => o != .gt
  | greater, o => o == .gt
  | greaterEqual, o => o != .lt
  | equal, o => o == .eq

inductive Operator where
  | numeric (c : Comparison)
  | text (c : Comparison)
  | version (c : Comparison)
  | pathEqual
  | inList
  deriving DecidableEq, Repr

def operators : List (String × Operator) :=
  [("LESS", .numeric .less), ("LESS_EQUAL", .numeric .lessEqual),
    ("GREATER", .numeric .greater), ("GREATER_EQUAL", .numeric .greaterEqual),
    ("EQUAL", .numeric .equal), ("STRLESS", .text .less), ("STRLESS_EQUAL", .text .lessEqual),
    ("STRGREATER", .text .greater), ("STRGREATER_EQUAL", .text .greaterEqual),
    ("STREQUAL", .text .equal), ("VERSION_LESS", .version .less),
    ("VERSION_LESS_EQUAL", .version .lessEqual), ("VERSION_GREATER", .version .greater),
    ("VERSION_GREATER_EQUAL", .version .greaterEqual), ("VERSION_EQUAL", .version .equal),
    ("PATH_EQUAL", .pathEqual), ("IN_LIST", .inList)]

inductive Predicate where
  | present
  | isDirectory
  | isLink
  | isAbsolute
  | command
  | policy
  | target
  | defined
  deriving DecidableEq, Repr

def predicates : List (String × Predicate) :=
  [("EXISTS", .present), ("IS_DIRECTORY", .isDirectory), ("IS_SYMLINK", .isLink),
    ("IS_ABSOLUTE", .isAbsolute), ("COMMAND", .command), ("POLICY", .policy),
    ("TARGET", .target), ("DEFINED", .defined)]

/-- What stays the same while one condition is evaluated: where it stands, and the policies on
quoted words and on the list operator. -/
structure Setting where
  trace : Backtrace
  quoting : PolicyStatus
  listing : PolicyStatus
  deriving DecidableEq, Repr

def Setting.of (e : Engine) (trace : Backtrace) : Setting :=
  ⟨trace, e.policy .cmp0054, e.policy .cmp0057⟩

def token (value : Bool) : Word := ⟨if value then "1" else "0", true⟩

def warnQuoted (s : Setting) (detail : String) : Step Unit := do
  let frame := (s.trace.top?).getD {}
  let key := (frame.file, frame.lineNumber)
  let e ← get
  if !e.quoteWarnings.contains key then
    set { e with quoteWarnings := key :: e.quoteWarnings }
    modify (·.issueAt .authorWarning (Policy.cmp0054.warning ++ "\n" ++ detail) s.trace)

def isKeyword (s : Setting) (keyword : String) (w : Word) : Step Bool := do
  if w.quoted && s.quoting = .new then return false
  if w.value != keyword then return false
  if w.quoted && s.quoting = .warn then
    warnQuoted s ("Quoted keywords like \"" ++ keyword ++
      "\" will no longer be interpreted as keywords when the policy is set to NEW.  " ++
      "Since the policy is not set the OLD behavior will be used.")
  return true

def keywordIn {α : Type} (s : Setting) (w : Word) : List (String × α) → Step (Option α)
  | [] => pure none
  | (keyword, a) :: rest => do
    if ← isKeyword s keyword w then return some a
    keywordIn s w rest

def definitionOf (s : Setting) (w : Word) : Step (Option String) := do
  if w.quoted && s.quoting = .new then return none
  let found := (← get).definition? w.value
  if found.isSome && w.quoted && s.quoting = .warn then
    warnQuoted s ("Quoted variables like \"" ++ w.value ++
      "\" will no longer be dereferenced when the policy is set to NEW.  " ++
      "Since the policy is not set the OLD behavior will be used.")
  return found

def textOf (s : Setting) (w : Word) : Step String := do
  return (← definitionOf s w).getD w.value

def truth (s : Setting) (w : Word) : Step Bool := do
  if ListValue.isOn w.value then return true
  if ListValue.isOff w.value then return false
  match Text.wholeDouble? w.value with
  | some x => return x != 0.0
  | none => return (← definitionOf s w).any (!ListValue.isOff ·)

def specialName? (text kind : String) : Option String := do
  let inner ← Text.stripStart? text (kind ++ "\x7b")
  let name ← Text.stripEnd? inner "\x7d"
  if name.isEmpty then none else some name

def isDefined (e : Engine) (name : String) : Bool :=
  match specialName? name "ENV" with
  | some name => e.environment.contains name
  | none =>
    match specialName? name "CACHE" with
    | some name => e.cache.contains name
    | none => e.isDefined name

def Predicate.holds (e : Engine) (operand : String) : Predicate → Bool
  | present => !operand.isEmpty && e.platform.isPresent operand
  | isDirectory => e.platform.isDirectory operand
  | isLink => e.platform.isLink operand
  | isAbsolute => Text.startsWith operand "/" || Text.startsWith operand "~"
  | command => e.registry.contains operand
  | policy => (Policy.ofName? operand).isSome
  | target => e.targets.contains operand
  | defined => Condition.isDefined e operand

def pathSegments (path : String) : List (List Char) :=
  let cs := path.toList
  let body := Text.splitOn '/' (cs.dropWhile (· == '/'))
  let segments := (body.dropLast.filter (!·.isEmpty)) ++ [body.getLastD []]
  if cs.head? = some '/' then ['/'] :: segments else segments

def matchPattern (s : Setting) (subject : Word) (pattern : String) :
    ExceptT ConditionError Step Bool := do
  let platform := (← get).platform
  let text ← textOf s subject
  modify (·.clearMatches)
  match platform.regex? pattern with
  | none => throw (.badPattern pattern)
  | some regex =>
    match regex.first text with
    | some m => do
      modify (·.storeMatch m)
      return true
    | none => return false

/-- The value of an operator; `none` when it turns out to be no operator. -/
def compare (s : Setting) (op : Operator) (left right : Word) : Step (Option Bool) := do
  match op with
  | .numeric c =>
    let l ← textOf s left
    let r ← textOf s right
    match Text.double? l.toList, Text.double? r.toList with
    | some (x, _), some (y, _) => return some ((Text.compareDoubles x y).any c.holds)
    | _, _ => return some false
  | .text c =>
    let l ← textOf s left
    let r ← textOf s right
    return some (c.holds (Ord.compare l r))
  | .version c =>
    let l ← textOf s left
    let r ← textOf s right
    return some (c.holds (Version.compareTexts l r))
  | .pathEqual =>
    let l ← textOf s left
    let r ← textOf s right
    return some (pathSegments l == pathSegments r)
  | .inList =>
    match s.listing with
    | .new =>
      let needle ← textOf s left
      let items := ((← get).definition? right.value).map ListValue.splitAll
      return some (items.any (·.contains needle))
    | .warn =>
      modify (·.issueAt .authorWarning (Policy.cmp0057.warning ++
        "\nIN_LIST will be interpreted as an operator when the policy is set to NEW.  " ++
        "Since the policy is not set the OLD behavior will be used.") s.trace)
      return none
    | .old => return none

def toClosing (s : Setting) : Nat → List Word → Step (Option (List Word × List Word))
  | _, [] => pure none
  | depth, w :: ws => do
    let inner (depth : Nat) : Step (Option (List Word × List Word)) := do
      return (← toClosing s depth ws).map fun (inside, rest) => (w :: inside, rest)
    if ← isKeyword s "(" w then inner (depth + 1)
    else if ← isKeyword s ")" w then
      match depth with
      | 0 => return some ([], ws)
      | depth + 1 => inner depth
    else inner depth

def parentheses (s : Setting) (inside : List Word → ExceptT ConditionError Step Bool) :
    Nat → List Word → ExceptT ConditionError Step (List Word)
  | _, [] => pure []
  | 0, ws => pure ws
  | fuel + 1, w :: ws => do
    if ← isKeyword s "(" w then
      match ← toClosing s 0 ws with
      | none => throw .mismatchedParenthesis
      | some (part, rest) =>
        let value ← inside part
        return token value :: (← parentheses s inside fuel rest)
    else return w :: (← parentheses s inside fuel ws)

def unary (s : Setting) : List Word → Step (List Word)
  | w :: operand :: rest => do
    match ← keywordIn s w predicates with
    | some p =>
      let value := p.holds (← get) operand.value
      return token value :: (← unary s rest)
    | none => return w :: (← unary s (operand :: rest))
  | ws => pure ws

def binaryRound (s : Setting) : List Word → ExceptT ConditionError Step (List Word × Bool)
  | x :: y :: z :: rest => do
    if ← isKeyword s "MATCHES" y then
      let value ← matchPattern s x z.value
      let (rest, _) ← binaryRound s rest
      return (token value :: rest, true)
    else if ← isKeyword s "MATCHES" x then
      let (rest, _) ← binaryRound s (z :: rest)
      return (token false :: rest, true)
    else
      let value ← (do
        match ← keywordIn s y operators with
        | some op => compare s op x z
        | none => pure none : Step (Option Bool))
      match value with
      | some value =>
        let (rest, _) ← binaryRound s rest
        return (token value :: rest, true)
      | none =>
        let (rest, reduced) ← binaryRound s (y :: z :: rest)
        return (x :: rest, reduced)
  | [x, y] => do
    if ← isKeyword s "MATCHES" x then return ([token false], true)
    else return ([x, y], false)
  | ws => pure (ws, false)

def binary (s : Setting) : Nat → List Word → ExceptT ConditionError Step (List Word)
  | 0, ws => pure ws
  | fuel + 1, ws => do
    let (ws, reduced) ← binaryRound s ws
    if reduced then binary s fuel ws else return ws

def negations (s : Setting) : List Word → Step (List Word)
  | [] => pure []
  | w :: ws => do
    match ← negations s ws with
    | [] => return [w]
    | operand :: rest =>
      if ← isKeyword s "NOT" w then return token (!(← truth s operand)) :: rest
      else return w :: operand :: rest

def logicalRound (s : Setting) : List Word → Step (List Word × Bool)
  | x :: y :: z :: rest => do
    let both ← isKeyword s "AND" y
    let operator ← if both then pure true else isKeyword s "OR" y
    if operator then
      let left ← truth s x
      let right ← truth s z
      let (rest, _) ← logicalRound s rest
      return (token (if both then left && right else left || right) :: rest, true)
    else
      let (rest, reduced) ← logicalRound s (y :: z :: rest)
      return (x :: rest, reduced)
  | ws => pure (ws, false)

def logical (s : Setting) : Nat → List Word → Step (List Word)
  | 0, ws => pure ws
  | fuel + 1, ws => do
    let (ws, reduced) ← logicalRound s ws
    if reduced then logical s fuel ws else return ws

def evaluateWithin (s : Setting) : Nat → List Word → ExceptT ConditionError Step Bool
  | 0, _ => throw .unknownArguments
  | fuel + 1, words => do
    if words.isEmpty then return false
    let words ← parentheses s (evaluateWithin s fuel) words.length words
    let words ← unary s words
    let words ← binary s (words.length + 1) words
    let words ← negations s words
    let words ← logical s (words.length + 1) words
    match words with
    | [only] => truth s only
    | _ => throw .unknownArguments

def evaluate (words : List Word) (trace : Backtrace) : Step (Except ConditionError Bool) := do
  modify (·.logged .tested)
  let s := Setting.of (← get) trace
  (evaluateWithin s (words.length + 1) words).run

def quoted (value : String) : String :=
  let body := value.toList.flatMap fun c =>
    if c = '\\' ∨ c = '"' ∨ c = '$' then ['\\', c] else [c]
  "\"" ++ String.ofList body ++ "\""

def describe (words : List Word) : String :=
  "given arguments:\n " ++
    Text.join "" (words.map fun w => " " ++ quoted w.value) ++ "\n"

end Condition
end CMakeScript
