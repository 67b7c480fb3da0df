import CMakeScript.Regex.Pattern
/-! Weights of patterns: the room that an automaton over the bytes of a text would take, in bytes.
A state counts 32 and each of its ways on 8. Patterns beyond a bound are refused, so that counts of
repetition cannot ask for any amount of room. -/
namespace CMakeScript.Regex

namespace CharSet

def weight : CharSet → Nat
  | none => 0
  | range _ last => if Text.isAscii last then 8 else 136
  | digit => 5052
  | space => 616
  | word => 49772
  | posix _ => 16
  | complement s => s.weight + 900
  | union s t => s.weight + t.weight
  | inter s t => s.weight + t.weight
  | difference s t => s.weight + t.weight
  | symmetric s t => s.weight + t.weight

end CharSet

namespace Pattern

def weightOfOne (fold : Bool) (set : CharSet) : Nat :=
  match fold, set with
  | false, .range first last =>
    if first = last then 32 * first.utf8Size else 64 + set.weight
  | false, _ => 64 + set.weight
  | true, _ => 64 + 2 * set.weight

def weight : Pattern → Nat
  | empty => 32
  | one fold set => weightOfOne fold set
  | check _ => 32
  | group _ p => p.weight + 64
  | cat p q => p.weight + q.weight
  | alt p q => p.weight + q.weight + 40
  | copies p least none _ => max least 1 * p.weight + 40
  | copies p least (some most) _ =>
    least * p.weight + (most - least) * (p.weight + 40) + 32

def heaviest : Nat := 10485760

def frameWeight : Nat := 208

def isLight (p : Pattern) : Bool := p.weight + frameWeight ≤ heaviest

end Pattern
end CMakeScript.Regex
