import CMakeScript.Command.Loop
import CMakeScript.Execution.Replay
/-! Loops over things: how the words of a `foreach` give a loop, and what a run of it is. The loop
goes through rounds, and each starts with its variables set. -/
namespace CMakeScript

inductive Loop where
  | each (name : String) (items : List String)
  | zipped (names lists : List String)
  deriving DecidableEq, Repr

namespace Loop

inductive Part where
  | lists (names : List String)
  | items (words : List String)
  deriving DecidableEq, Repr

namespace Part

def given : Part → List String
  | lists names => names
  | items words => words

def words : Part → List String
  | lists names => "LISTS" :: names
  | items words => "ITEMS" :: words

def values (e : Engine) : Part → List String
  | lists names => names.flatMap (Command.elements e)
  | items words => words

end Part

def keywords : List String := ["LISTS", "ITEMS", "ZIP_LISTS"]

/-- Words that give a loop, and the block that is opened for it. Where no variable is given the
first item is the name of one. -/
inductive Given (e : Engine) : List String → Loop → Block → Prop where
  | plain {name items} (others : "IN" ∉ name :: items) (unranged : items.head? ≠ some "RANGE") :
    Given e (name :: items) (.each name items) (.foreachLoop (name :: items) 1 false)
  | range {name bounds numbers} (others : "IN" ∉ name :: bounds)
    (range : Command.rangeOf bounds = .ok numbers) :
    Given e (name :: "RANGE" :: bounds) (.each name (numbers.map Text.signedDecimal))
      (.foreachLoop (name :: numbers.map Text.signedDecimal) 1 false)
  | named {name} {parts : List Part} (other : name ≠ "IN")
    (plain : ∀ part ∈ parts, ∀ word ∈ part.given, word ∉ keywords) :
    Given e (name :: "IN" :: parts.flatMap Part.words) (.each name (parts.flatMap (Part.values e)))
      (.foreachLoop (name :: parts.flatMap (Part.values e)) 1 false)
  | unnamed {name items} {parts : List Part}
    (plain : ∀ part ∈ parts, ∀ word ∈ part.given, word ∉ keywords)
    (values : parts.flatMap (Part.values e) = name :: items) :
    Given e ("IN" :: parts.flatMap Part.words) (.each name (name :: items))
      (.foreachLoop (name :: items) 0 false)
  | zipped {names lists} (others : "IN" ∉ names) (plain : ∀ list ∈ lists, list ∉ keywords)
    (paired : 1 < names.length → lists.length = names.length) :
    Given e (names ++ "IN" :: "ZIP_LISTS" :: lists) (.zipped names lists)
      (.foreachLoop (names ++ lists) names.length true)

def variableNames : Loop → List String
  | each name _ => [name]
  | zipped names lists =>
    if 1 < names.length then names
    else (List.range lists.length).map fun i =>
      (names ++ lists).headD "" ++ "_" ++ Text.decimal i

def count (e : Engine) : Loop → Nat
  | each _ items => items.length
  | zipped _ lists => ((lists.map fun list => (Command.elements e list).length).max?).getD 0

def round (e : Engine) (loop : Loop) (k : Nat) : List (String × Option String) :=
  loop.variableNames.zip (match loop with
    | each _ items => [items[k]?]
    | zipped _ lists => lists.map fun list => (Command.elements e list)[k]?)

def rounds (e : Engine) (loop : Loop) : List (List (String × Option String)) :=
  (List.range (loop.count e)).map (loop.round e)

end Loop

def Engine.Shows (e : Engine) (given : List (String × Option String)) : Prop :=
  ∀ before name value after, given = before ++ (name, value) :: after →
    name ∉ after.map Prod.fst → e.normal? name = value

def Engine.assignAll (e : Engine) (given : List (String × Option String)) : Engine :=
  given.foldl (fun e (name, value) => e.assign name value) e

def Engine.leaveLoop (e : Engine) (names : List String) (saved : List (String × Option String)) :
    Engine := ((e.assignAll saved).logged (.loopLeft names)).endLoop

namespace Runner

inductive BodyRuns (r : Runner) : List Command → Engine → Option Transfer → Engine → Prop where
  | done {e} : BodyRuns r [] e none e
  | next {c rest e e₁ e₂ result t?} (run : r.run c e = .ok (result, e₁))
    (silent : result.2.transfer? = none) (live : e₁.fatal = false)
    (further : BodyRuns r rest e₁ t? e₂) : BodyRuns r (c :: rest) e t? e₂
  | asks {c rest e e₁ result t} (run : r.run c e = .ok (result, e₁))
    (asked : result.2.transfer? = some t) : BodyRuns r (c :: rest) e (some t) e₁

/-- Runs of a body, each with the variables set anew. Only a `break`, a `return` or an `exit` keeps
the loop from going through all of the rounds. -/
inductive LoopRuns (r : Runner) (body : List Command) :
    List (List (String × Option String)) → Engine → Option Transfer → Engine → Prop where
  | done {e} : LoopRuns r body [] e none e
  | next {given rest e e₁ e₂ t? left?} (shows : (e.assignAll given).Shows given)
    (runs : BodyRuns r body (e.assignAll given) t? e₁) (goes : t? = none ∨ t? = some .continuing)
    (further : LoopRuns r body rest e₁ left? e₂) : LoopRuns r body (given :: rest) e left? e₂
  | leaves {given rest e e₁ t} (shows : (e.assignAll given).Shows given)
    (runs : BodyRuns r body (e.assignAll given) (some t) e₁) (left : t ≠ .continuing) :
    LoopRuns r body (given :: rest) e (some t) e₁

end Runner

def Outcome.afterLoop (o : Outcome) : Option Transfer → Outcome
  | some (.returning names) => o.request (.returning names)
  | some (.exiting code) => o.request (.exiting code)
  | _ => o

end CMakeScript
