import CMakeScript.Engine.Arguments
import CMakeScript.Text.Decimal
/-! Operations on text. An operation on given values answers either with the reason why it fails or
with the variable that it writes and its value. Matching also writes the variables of the last
match, and configuring reads variables. -/
namespace CMakeScript.Command

namespace StringOperation

abbrev Answer := Except String (String × String)

def number? (text : String) : Int := (Text.leadingInt? text).getD 0

def substring : List String → Answer
  | [text, first, length, output] =>
    let first := number? first
    let length := number? length
    let size := Text.byteLength text.toList
    if first < 0 ∨ size < first then
      .error ("begin index: " ++ Text.signedDecimal first ++ " is out of range 0 - " ++
        Text.decimal size)
    else if length < -1 then
      .error ("end index: " ++ Text.signedDecimal length ++ " should be -1 or greater")
    else
      let stop := if length = -1 then size else min size (first.toNat + length.toNat)
      .ok (output, String.ofList (Text.cutBytes first.toNat stop text.toList))
  | _ => .error "sub-command SUBSTRING requires four arguments."

def find : List String → Answer
  | text :: mark :: output :: rest =>
    let place := fun (found : Option Nat) =>
      match found with
      | some n => Text.decimal n
      | none => "-1"
    match rest with
    | [] => .ok (output, place (Text.position? mark.toList text.toList))
    | ["REVERSE"] => .ok (output, place (Text.lastPosition? mark.toList text.toList))
    | [other] => .error ("sub-command FIND: unknown last parameter " ++ other)
    | _ => .error "sub-command FIND requires 3 or 4 parameters."
  | _ => .error "sub-command FIND requires 3 or 4 parameters."

def accepts? : String → Option (Ordering → Bool)
  | "EQUAL" => some (·.isEq)
  | "NOTEQUAL" => some (·.isNe)
  | "LESS" => some (·.isLT)
  | "LESS_EQUAL" => some (·.isLE)
  | "GREATER" => some (·.isGT)
  | "GREATER_EQUAL" => some (·.isGE)
  | _ => none

def compare : List String → Answer
  | [] => .error "sub-command COMPARE requires a mode to be specified."
  | mode :: rest =>
    match accepts? mode, rest with
    | none, _ => .error ("sub-command COMPARE does not recognize mode " ++ mode)
    | some accepts, left :: right :: output :: _ =>
      .ok (output, if accepts (Ord.compare left right) then "1" else "0")
    | some _, _ =>
      .error ("sub-command COMPARE, mode " ++ mode ++
        " needs at least 5 arguments total to command.")

def isSpace (c : Char) : Bool :=
  c == ' ' || c == '\t' || c == '\n' || c == '\r' || c == '\x0b' || c == '\x0c'

def strip : List String → Answer
  | [text, output] =>
    .ok (output, String.ofList (Text.dropWhileEnd isSpace (text.toList.dropWhile isSpace)))
  | _ => .error "sub-command STRIP requires two arguments."

def repeated : List String → Answer
  | [text, count, output] =>
    match Text.natBelow? (Text.bitBound 64) (count.toList.dropWhile Text.isBlank) with
    | none => .error "repeat count is not a positive number."
    | some n =>
      .ok (output,
        if text.isEmpty then "" else String.ofList (List.replicate n text.toList).flatten)
  | _ => .error "sub-command REPEAT requires three arguments."

def changeCase (f : String → String) : List String → Answer
  | text :: output :: _ => .ok (output, f text)
  | _ => .error "no output variable specified"

def length : List String → Answer
  | [text, output] => .ok (output, Text.decimal (Text.byteLength text.toList))
  | _ => .error "sub-command LENGTH requires two arguments."

def join : List String → Answer
  | glue :: output :: parts => .ok (output, Text.join glue parts)
  | _ => .error "sub-command JOIN requires at least two arguments."

def concat : List String → Answer
  | output :: parts => .ok (output, Text.join "" parts)
  | [] => .error "sub-command CONCAT requires at least one argument."

def replace : List String → Answer
  | old :: new :: output :: first :: more =>
    .ok (output, Text.replaceAll old new (Text.join "" (first :: more)))
  | _ => .error "sub-command REPLACE requires at least four arguments."

def answer (word : String) (arguments : List String) : Answer :=
  match word with
  | "CONCAT" => concat arguments
  | "JOIN" => join arguments
  | "LENGTH" => length arguments
  | "TOUPPER" => changeCase Text.upper arguments
  | "TOLOWER" => changeCase Text.lower arguments
  | "SUBSTRING" => substring arguments
  | "FIND" => find arguments
  | "REPLACE" => replace arguments
  | "STRIP" => strip arguments
  | "COMPARE" => compare arguments
  | "REPEAT" => repeated arguments
  | other => .error ("does not recognize sub-command " ++ other)

inductive Piece where
  | literal (c : Char)
  | group (number : Nat)
  deriving DecidableEq, Repr

def pieces : List Char → Except Char (List Piece)
  | [] => .ok []
  | ['\\'] => .ok [.literal '\\']
  | '\\' :: c :: cs =>
    if Text.isDigit c then return .group (Text.digitValue c) :: (← pieces cs)
    else if c = 'n' then return .literal '\n' :: (← pieces cs)
    else if c = '\\' then return .literal '\\' :: (← pieces cs)
    else .error c
  | c :: cs => do return .literal c :: (← pieces cs)

def Piece.fill (m : Regex.Match) : Piece → List Char
  | literal c => [c]
  | group n => ((m.group? n).getD "").toList

def regexMode (mode text : String) : String := "sub-command REGEX, mode " ++ mode ++ text

def uncompiled (mode pattern : String) : String :=
  regexMode mode (" failed to compile regex \"" ++ pattern ++ "\".")

def emptyMatch (mode pattern : String) : String :=
  regexMode mode (" regex \"" ++ pattern ++ "\" matched an empty string.")

/-- Replaces match after match; `none` if one of them is empty. -/
def replaceMatches (r : Regex) (replacement : List Piece) (text : Array Char) :
    Nat → Nat → StateM Engine (Option (List Char))
  | 0, place => pure (some (text.extract place text.size).toList)
  | fuel + 1, place => do
    match r.firstFrom text place with
    | none => return some (text.extract place text.size).toList
    | some m =>
      if m.isEmpty then return none
      else
        modify (·.storeMatch m)
        match ← replaceMatches r replacement text fuel m.stop with
        | none => return none
        | some rest =>
          return some ((text.extract place m.start).toList ++
            replacement.flatMap (Piece.fill m) ++ rest)

def storeMatches : List Regex.Match → StateM Engine Bool
  | [] => pure true
  | m :: rest =>
    if m.isEmpty then pure false
    else do
      modify (·.storeMatch m)
      storeMatches rest

def matchRegex (mode : String) : List String → Step Verdict
  | pattern :: output :: first :: more => do
    match (← get).platform.regex? pattern with
    | none => Step.fail (uncompiled mode pattern)
    | some r =>
      let text := Text.join "" (first :: more)
      modify (·.clearMatches)
      if mode = "MATCH" then
        match r.first text with
        | some m => do
          modify (·.storeMatch m)
          Step.define output m.whole
        | none => Step.define output ""
        Step.done
      else
        let found := r.allMatches text
        if ← storeMatches found then
          Step.define output (ListValue.join (found.map (·.whole)))
          Step.done
        else Step.fail (emptyMatch mode pattern)
  | _ => Step.fail (regexMode mode " needs at least 5 arguments total to command.")

def replaceRegex : List String → Step Verdict
  | pattern :: replacement :: output :: first :: more => do
    match pieces replacement.toList with
    | .error c =>
      Step.fail (regexMode "REPLACE"
        (": Unknown escape \"\\" ++ c.toString ++ "\" in replace-expression."))
    | .ok replacement =>
      match (← get).platform.regex? pattern with
      | none => Step.fail (uncompiled "REPLACE" pattern)
      | some r =>
        let text := (Text.join "" (first :: more)).toList.toArray
        modify (·.clearMatches)
        match ← replaceMatches r replacement text (text.size + 1) 0 with
        | some result =>
          Step.define output (String.ofList result)
          Step.done
        | none => Step.fail (emptyMatch "REPLACE" pattern)
  | _ => Step.fail (regexMode "REPLACE" " needs at least 6 arguments total to command.")

def regex : List String → Step Verdict
  | [] => Step.fail "sub-command REGEX requires a mode to be specified."
  | mode :: arguments =>
    if mode = "MATCH" ∨ mode = "MATCHALL" then matchRegex mode arguments
    else if mode = "REPLACE" then replaceRegex arguments
    else Step.fail ("sub-command REGEX does not recognize mode " ++ mode)

def extend (word : String) : List String → Step Verdict
  | [] => Step.fail ("sub-command " ++ word ++ " requires at least one argument.")
  | [_] => Step.done
  | name :: parts => do
    let current := (← get).value name
    let added := Text.join "" parts
    Step.define name (if word = "APPEND" then current ++ added else added ++ current)
    Step.done

def isBlankOrTab (c : Char) : Bool := c == ' ' || c == '\t'

def directiveName? (tail : List Char) : Option String :=
  match tail with
  | c :: _ =>
    if isBlankOrTab c then
      some (String.ofList ((tail.dropWhile isBlankOrTab).takeWhile fun c =>
        Text.isAlphanumeric c || c == '_'))
    else none
  | [] => none

def directive? (holds : String → Bool) (line : String) (after : List Char) : Option String :=
  let indent := String.ofList (after.takeWhile isBlankOrTab)
  let text := String.ofList (after.dropWhile isBlankOrTab)
  match Text.stripStart? text "cmakedefine01" with
  | some tail => do
    let name ← directiveName? tail.toList
    some ("#" ++ indent ++ "define " ++ name ++ " " ++ (if holds name then "1" else "0"))
  | none => do
    let tail ← Text.stripStart? text "cmakedefine"
    let name ← directiveName? tail.toList
    if holds name then
      some (Text.replaceAll ("#" ++ indent ++ "cmakedefine") ("#" ++ indent ++ "define") line)
    else some ("/* #" ++ indent ++ "undef " ++ name ++ " */")

def configureLine (holds : String → Bool) (line : String) : List Char → String
  | [] => line
  | c :: cs =>
    if c = '#' then
      match directive? holds line cs with
      | some text => text
      | none => configureLine holds line cs
    else configureLine holds line cs

def configureDefines (holds : String → Bool) (text : String) : String :=
  Text.join "\n" ((Text.split '\n' text).map fun line => configureLine holds line line.toList)

def configureOptions (o : ExpandOptions) : List String → Except String ExpandOptions
  | [] => .ok o
  | "@ONLY" :: rest => configureOptions { o with atOnly := true } rest
  | "ESCAPE_QUOTES" :: rest => configureOptions { o with escapeQuotes := true } rest
  | other :: _ => .error ("Unrecognized argument \"" ++ other ++ "\"")

def configure : List String → Step Verdict
  | [] => Step.fail "No input string specified."
  | [_] => Step.fail "No output variable specified."
  | text :: output :: options => do
    match configureOptions { replaceAt := true, noEscapes := true } options with
    | .error reason => Step.fail reason
    | .ok options =>
      let e ← get
      let holds := fun name => (e.definition? name).any (!ListValue.isOff ·)
      let (value?, e) :=
        e.expandText (configureDefines holds text) e.place.lineNumber options
      set e
      match value? with
      | some value => Step.define output value
      | none => pure ()
      Step.done

end StringOperation

def string : List String → Step Verdict
  | [] => Step.fail "must be called with at least one argument."
  | "REGEX" :: arguments => StringOperation.regex arguments
  | "APPEND" :: arguments => StringOperation.extend "APPEND" arguments
  | "PREPEND" :: arguments => StringOperation.extend "PREPEND" arguments
  | "CONFIGURE" :: arguments => StringOperation.configure arguments
  | word :: arguments =>
    match StringOperation.answer word arguments with
    | .ok (name, value) => do
      Step.define name value
      Step.done
    | .error reason => Step.fail reason

end CMakeScript.Command
