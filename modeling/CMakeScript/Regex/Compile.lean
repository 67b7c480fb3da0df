import CMakeScript.Regex.Automaton
import CMakeScript.Regex.Basic
import CMakeScript.Regex.Reader
import CMakeScript.Regex.Weight
/-! Compiling of regular expressions to automata. -/
namespace CMakeScript.Regex

structure Program where
  automaton : Automaton
  entry : Nat
  groups : Nat

namespace Program

def ofText? (pattern : String) : Option Program := do
  let (p, groups) ← Pattern.ofText? pattern
  if p.isLight then
    let (entry, automaton) := Automaton.ofPattern p
    some ⟨automaton, entry, groups⟩
  else none

def firstFrom (r : Program) (text : Array Char) (place : Nat) : Option Match :=
  if text.size < place then none
  else
    (Automaton.searchFrom r.automaton r.entry (2 * (r.groups + 1)) text (text.size - place) place
      {}).map fun slots => ⟨text, slots⟩

def matchesFrom (r : Program) (text : Array Char) : Nat → Nat → Option Nat → List Match
  | 0, _, _ => []
  | fuel + 1, place, last =>
    match r.firstFrom text place with
    | none => []
    | some m =>
      if m.isEmpty && last == some m.stop then
        match r.firstFrom text (place + 1) with
        | none => []
        | some m => m :: matchesFrom r text fuel m.stop (some m.stop)
      else m :: matchesFrom r text fuel m.stop (some m.stop)

def allMatches (r : Program) (text : String) : List Match :=
  let cs := text.toList.toArray
  r.matchesFrom cs (2 * cs.size + 2) 0 none

def regex (r : Program) : Regex := ⟨r.firstFrom, r.allMatches⟩

end Program

def compile? (pattern : String) : Option Regex := (Program.ofText? pattern).map (·.regex)

end CMakeScript.Regex
