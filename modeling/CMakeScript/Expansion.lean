import CMakeScript.Text.Basic
/-! Expansion of variable references and escapes in the text of an argument. A reference stands for
the value looked up under its name, and a name may hold further references. Values are inserted
once and not read again. -/
namespace CMakeScript

inductive ReferenceKind where
  | normal
  | environment
  | cache
  deriving DecidableEq, Repr

structure VariableSource where
  normal : String → Option String
  cache : String → Option String
  environment : String → Option String

namespace VariableSource

def lookup (v : VariableSource) (kind : ReferenceKind) (name : String) : Option String :=
  match kind with
  | .normal => v.normal name
  | .cache => v.cache name
  | .environment => v.environment name

end VariableSource

structure ExpandOptions where
  atOnly : Bool := false
  replaceAt : Bool := false
  noEscapes : Bool := false
  escapeQuotes : Bool := false
  deriving DecidableEq, Repr, Inhabited

inductive ExpandError where
  | invalidEscape (c : Option Char)
  | invalidNameChar (c : Char) (name : List Char)
  | unterminated
  deriving DecidableEq, Repr

namespace ExpandError

def message : ExpandError → String
  | invalidEscape none => "Invalid character escape '\\'."
  | invalidEscape (some c) => "Invalid character escape '\\" ++ c.toString ++ "'."
  | invalidNameChar c name =>
    "Invalid character ('" ++ c.toString ++ "') in a variable name: '" ++
      String.ofList name ++ "'"
  | unterminated => "There is an unterminated variable reference."

end ExpandError

namespace Expansion

def isNameChar (c : Char) : Bool :=
  Text.isAlphanumeric c || c == '/' || c == '_' || c == '.' || c == '+' || c == '-'

structure OpenReference where
  kind : ReferenceKind
  before : List Char
  deriving DecidableEq, Repr

def opening? (cs : List Char) : Option (ReferenceKind × Nat) :=
  if ['$', '{'].isPrefixOf cs then some (.normal, 2)
  else if ['$', 'E', 'N', 'V', '{'].isPrefixOf cs then some (.environment, 5)
  else if ['$', 'C', 'A', 'C', 'H', 'E', '{'].isPrefixOf cs then some (.cache, 7)
  else none

def quoteValue (escape : Bool) (value : String) : List Char :=
  if escape then Text.replaceChar '"' ['\\', '"'] value.toList else value.toList

def controlEscape? : Char → Option Char
  | 't' => some '\t'
  | 'n' => some '\n'
  | 'r' => some '\r'
  | _ => none

def atName? (cs : List Char) : Option (List Char × List Char) :=
  match cs.takeWhile isNameChar, cs.dropWhile isNameChar with
  | [], _ => none
  | name, '@' :: rest => some (name, rest)
  | _, _ => none

/-- Expands the text that is left. `refs` holds the open references, the innermost first, and
`done` the text since the innermost opening, last character first. The first argument bounds the
number of steps by the length of the text. -/
def run (source : VariableSource) (options : ExpandOptions) :
    Nat → List OpenReference → List Char → List Char → Except ExpandError (List Char)
  | _, refs, done, [] => if refs.isEmpty then .ok done.reverse else .error .unterminated
  | 0, _, done, _ => .ok done.reverse
  | fuel + 1, refs, done, c :: cs =>
    let step := run source options fuel
    let plain : Except ExpandError (List Char) :=
      if !refs.isEmpty && Text.isAscii c && !isNameChar c then
        .error (.invalidNameChar c done.reverse)
      else step refs (c :: done) cs
    if c = '}' then
      match refs with
      | [] => plain
      | ref :: outer =>
        let value := (source.lookup ref.kind (String.ofList done.reverse)).getD ""
        let text := quoteValue (options.escapeQuotes && outer.isEmpty) value
        step outer (text.reverse ++ ref.before) cs
    else if c = '$' ∧ !options.atOnly then
      match opening? (c :: cs) with
      | some (kind, length) => step (⟨kind, done⟩ :: refs) [] ((c :: cs).drop length)
      | none =>
        if refs.isEmpty then step refs (c :: done) cs
        else .error (.invalidNameChar c done.reverse)
    else if c = '\\' ∧ !options.noEscapes then
      match cs with
      | [] => .error (.invalidEscape none)
      | d :: rest =>
        match controlEscape? d with
        | some control => step refs (control :: done) rest
        | none =>
          if d = ';' ∧ refs.isEmpty then step refs (d :: c :: done) rest
          else if Text.isAlphanumeric d then .error (.invalidEscape (some d))
          else step refs (d :: done) rest
    else if c = '@' ∧ (options.replaceAt || options.atOnly) ∧ refs.isEmpty then
      match atName? cs with
      | some (name, rest) =>
        let value := (source.normal (String.ofList name)).getD ""
        step refs ((quoteValue options.escapeQuotes value).reverse ++ done) rest
      | none => step refs (c :: done) cs
    else plain

def expand (source : VariableSource) (options : ExpandOptions) (text : String) :
    Except ExpandError String :=
  (run source options text.toList.length [] [] text.toList).map String.ofList

end Expansion
end CMakeScript
