import CMakeScript.Regex.Pattern
import Std.Data.HashSet
/-! Automata for patterns. A state reads one character, chooses between two successors, notes the
place in a slot, or checks a condition; the first choice is preferred. The search tries the places
of the text in order and never visits a state twice at the same place, so that it ends, and the
first way to the accepting state is the match. -/
namespace CMakeScript.Regex

inductive Node where
  | one (fold : Bool) (set : CharSet) (next : Nat)
  | choose (first second : Nat)
  | save (slot next : Nat)
  | check (a : Assertion) (next : Nat)
  | accept
  deriving Repr, Inhabited

abbrev Automaton := Array Node

namespace Automaton

def add (a : Automaton) (node : Node) : Nat × Automaton := (a.size, a.push node)

def preference (greedy : Bool) (again leave : Nat) : Node :=
  if greedy then .choose again leave else .choose leave again

def replicate (build : Nat → Automaton → Nat × Automaton) :
    Nat → Nat → Automaton → Nat × Automaton
  | 0, next, a => (next, a)
  | count + 1, next, a =>
    let (start, a) := build next a
    replicate build count start a

def optional (build : Nat → Automaton → Nat × Automaton) (greedy : Bool) (leave : Nat) :
    Nat → Automaton → Nat × Automaton
  | 0, a => (leave, a)
  | count + 1, a =>
    let (rest, a) := optional build greedy leave count a
    let (start, a) := build rest a
    a.add (preference greedy start leave)

def loop (build : Nat → Automaton → Nat × Automaton) (greedy : Bool) (next : Nat)
    (a : Automaton) : Nat × Nat × Automaton :=
  let (again, a) := a.add .accept
  let (start, a) := build again a
  (start, again, a.set! again (preference greedy start next))

def build : Pattern → Nat → Automaton → Nat × Automaton
  | .empty, next, a => (next, a)
  | .one fold set, next, a => a.add (.one fold set next)
  | .check c, next, a => a.add (.check c next)
  | .group index p, next, a =>
    let (close, a) := a.add (.save (2 * index + 1) next)
    let (start, a) := build p close a
    a.add (.save (2 * index) start)
  | .cat p q, next, a =>
    let (middle, a) := build q next a
    build p middle a
  | .alt p q, next, a =>
    let (second, a) := build q next a
    let (first, a) := build p next a
    a.add (.choose first second)
  | .copies p least (some most) greedy, next, a =>
    let (start, a) := optional (build p) greedy next (most - least) a
    replicate (build p) least start a
  | .copies p 0 none greedy, next, a =>
    let (start, again, a) := loop (build p) greedy next a
    if p.minLength = 0 then a.add (preference greedy start next) else (again, a)
  | .copies p (least + 1) none greedy, next, a =>
    let (start, _, a) := loop (build p) greedy next a
    replicate (build p) least start a

def ofPattern (p : Pattern) : Nat × Automaton :=
  build (.group 0 p) 0 #[.accept]

def wordAt (text : Array Char) (i : Nat) : Bool := (text[i]?).any Text.isWordChar

def wordBefore (text : Array Char) (i : Nat) : Bool := i != 0 && wordAt text (i - 1)

def satisfied (text : Array Char) (i : Nat) : Assertion → Bool
  | .textStart => i == 0
  | .textEnd => i == text.size
  | .lineStart => i == 0 || text[i - 1]? == some '\n'
  | .lineEnd => i == text.size || text[i]? == some '\n'
  | .wordBoundary => wordBefore text i != wordAt text i
  | .noWordBoundary => wordBefore text i == wordAt text i
  | .wordStart => !wordBefore text i && wordAt text i
  | .wordEnd => wordBefore text i && !wordAt text i
  | .wordStartHalf => !wordBefore text i
  | .wordEndHalf => !wordAt text i
  | .lineStartPaired =>
    i == 0 || text[i - 1]? == some '\n' || (text[i - 1]? == some '\r' && text[i]? != some '\n')
  | .lineEndPaired =>
    i == text.size || text[i]? == some '\r' ||
      (text[i]? == some '\n' && (i == 0 || text[i - 1]? != some '\r'))

structure Thread where
  state : Nat
  place : Nat
  slots : Array (Option Nat)

def run (a : Automaton) (text : Array Char) :
    Nat → List Thread → Std.HashSet Nat → Option (Array (Option Nat)) × Std.HashSet Nat
  | 0, _, visited => (none, visited)
  | _ + 1, [], visited => (none, visited)
  | fuel + 1, t :: ts, visited =>
    let key := t.state * (text.size + 1) + t.place
    if visited.contains key then run a text fuel ts visited
    else
      let visited := visited.insert key
      match a[t.state]? with
      | none => run a text fuel ts visited
      | some .accept => (some t.slots, visited)
      | some (.one fold set next) =>
        match text[t.place]? with
        | some c =>
          if set.holds fold c then run a text fuel (⟨next, t.place + 1, t.slots⟩ :: ts) visited
          else run a text fuel ts visited
        | none => run a text fuel ts visited
      | some (.choose first second) =>
        run a text fuel
          (⟨first, t.place, t.slots⟩ :: ⟨second, t.place, t.slots⟩ :: ts) visited
      | some (.save slot next) =>
        run a text fuel (⟨next, t.place, t.slots.set! slot (some t.place)⟩ :: ts) visited
      | some (.check c next) =>
        if satisfied text t.place c then run a text fuel (⟨next, t.place, t.slots⟩ :: ts) visited
        else run a text fuel ts visited

def enough (a : Automaton) (text : Array Char) : Nat := 3 * (a.size + 1) * (text.size + 2) + 2

def searchFrom (a : Automaton) (entry slots : Nat) (text : Array Char) :
    Nat → Nat → Std.HashSet Nat → Option (Array (Option Nat))
  | count, place, visited =>
    match run a text (enough a text) [⟨entry, place, Array.replicate slots none⟩] visited with
    | (some found, _) => some found
    | (none, visited) =>
      match count with
      | 0 => none
      | count + 1 => searchFrom a entry slots text count (place + 1) visited

end Automaton
end CMakeScript.Regex
