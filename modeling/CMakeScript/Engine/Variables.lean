import CMakeScript.Engine.State
import CMakeScript.ListValue
import CMakeScript.Regex.Basic
import CMakeScript.Text.Numeral
/-! Variables of a run: normal ones first, then the cache; and the variables that hold the groups of
the last match. -/
namespace CMakeScript.Engine

def normal? (e : Engine) (name : String) : Option String := e.scopes.definition? e.snapshot name

def valuesOf (e : Engine) (names : List String) : List (String × Option String) :=
  (names.filter (!·.isEmpty)).map fun name => (name, e.normal? name)

def definition? (e : Engine) (name : String) : Option String :=
  match e.normal? name with
  | some value => some value
  | none => e.cache.value? name

def value (e : Engine) (name : String) : String := (e.definition? name).getD ""

def isDefined (e : Engine) (name : String) : Bool := (e.definition? name).isSome

def isOn (e : Engine) (name : String) : Bool := (e.definition? name).any ListValue.isOn

def define (e : Engine) (name value : String) : Engine :=
  { e with scopes := e.scopes.define e.snapshot name value }

def undefine (e : Engine) (name : String) : Engine :=
  { e with scopes := e.scopes.undefine e.snapshot name }

def assign (e : Engine) (name : String) : Option String → Engine
  | some value => e.define name value
  | none => e.undefine name

def switch (on : Bool) : String := if on then "ON" else "OFF"

def matchName (i : Nat) : String := "CMAKE_MATCH_" ++ Text.decimal i

/-- Empties the groups of the last match, as far as its count says that there are any. -/
def clearMatches (e : Engine) : Engine :=
  match e.definition? "CMAKE_MATCH_COUNT" with
  | none => e
  | some text =>
    let count := (Text.natBelow? (Text.bitBound 64) text.toList).getD 0
    let cleared := (List.range (min count 9 + 1)).foldl
      (fun e i =>
        if (e.definition? (matchName i)).any (!·.isEmpty) then e.define (matchName i) "" else e) e
    cleared.define "CMAKE_MATCH_COUNT" "0"

def storeGroups (e : Engine) (group? : Nat → Option String) : Engine :=
  let (e, highest) := (List.range 10).foldl
    (fun (e, highest) i =>
      match group? i with
      | some text => if text.isEmpty then (e, highest) else (e.define (matchName i) text, i)
      | none => (e, highest)) (e, 0)
  e.define "CMAKE_MATCH_COUNT" (Text.decimal highest)

def storeMatch (e : Engine) (m : Regex.Match) : Engine := e.storeGroups m.group?

end CMakeScript.Engine
