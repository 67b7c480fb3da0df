/-! Regular expressions as a run sees them: what it can ask of a compiled one. -/
namespace CMakeScript

namespace Regex

structure Match where
  text : Array Char
  slots : Array (Option Nat)

namespace Match

def bounds? (m : Match) (group : Nat) : Option (Nat × Nat) := do
  let first ← (m.slots[2 * group]?).join
  let last ← (m.slots[2 * group + 1]?).join
  some (first, last)

def group? (m : Match) (group : Nat) : Option String :=
  (m.bounds? group).map fun (first, last) =>
    String.ofList (m.text.extract first last).toList

def start (m : Match) : Nat := ((m.bounds? 0).map Prod.fst).getD 0

def stop (m : Match) : Nat := ((m.bounds? 0).map Prod.snd).getD 0

def whole (m : Match) : String := (m.group? 0).getD ""

def isEmpty (m : Match) : Bool := m.start == m.stop

end Match
end Regex

/-- The first match at a place of a text or after it, and all matches one after the other. -/
structure Regex where
  firstFrom : Array Char → Nat → Option Regex.Match
  allMatches : String → List Regex.Match

namespace Regex

def first (r : Regex) (text : String) : Option Match := r.firstFrom text.toList.toArray 0

end Regex
end CMakeScript
