import CMakeScript.Engine.Messages
import CMakeScript.Expansion
/-! Expansion of arguments in a run: references are looked up, and an unquoted argument is then cut
into the elements of its list. -/
namespace CMakeScript

structure Word where
  value : String
  quoted : Bool := false
  deriving DecidableEq, Repr, Inhabited

namespace Engine

def source (e : Engine) : VariableSource :=
  ⟨e.definition?, e.cache.value?, fun name => e.environment[name]?⟩

def expandText (e : Engine) (text : String) (line : Nat) (options : ExpandOptions) :
    Option String × Engine :=
  match Expansion.expand e.source options text with
  | .ok value => (some value, e)
  | .error error =>
    (none, e.fatalError ("Syntax error in cmake code at\n  " ++ e.listFile ++ ":" ++
      Text.decimal line ++ "\nwhen parsing string\n  " ++ text ++ "\n" ++ error.message))

def expandArgument (e : Engine) (a : Argument) : List Word × Engine :=
  match a.delimiter with
  | .bracket => ([⟨a.value, true⟩], e)
  | .quoted =>
    match e.expandText a.value a.line {} with
    | (some value, e) => ([⟨value, true⟩], e)
    | (none, e) => ([], e)
  | .unquoted =>
    match e.expandText a.value a.line {} with
    | (some value, e) => ((ListValue.split value).map (⟨·, false⟩), e)
    | (none, e) => ([], e)

def expandEach (e : Engine) : List Argument → List Word × Engine
  | [] => ([], e)
  | a :: rest =>
    let (words, e) := e.expandArgument a
    let (more, e) := expandEach e rest
    (words ++ more, e)

end Engine

namespace Step

def words (arguments : List Argument) : Step (Option (List Word)) := fun e =>
  let (found, e) := e.expandEach arguments
  (if e.fatal then none else some found, e)

def values (arguments : List Argument) : Step (Option (List String)) := do
  return (← words arguments).map (·.map Word.value)

end Step
end CMakeScript
