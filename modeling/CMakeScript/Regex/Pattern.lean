import CMakeScript.Regex.CharSet
/-! Patterns of regular expressions. -/
namespace CMakeScript.Regex

inductive Assertion where
  | textStart
  | textEnd
  | lineStart
  | lineEnd
  | wordBoundary
  | noWordBoundary
  | wordStart
  | wordEnd
  | wordStartHalf
  | wordEndHalf
  | lineStartPaired
  | lineEndPaired
  deriving DecidableEq, Repr

inductive Pattern where
  | empty
  | one (fold : Bool) (set : CharSet)
  | check (a : Assertion)
  | group (index : Nat) (p : Pattern)
  | cat (p q : Pattern)
  | alt (p q : Pattern)
  /-- From `least` copies up to `most`, without bound for `none`; as many as possible if greedy. -/
  | copies (p : Pattern) (least : Nat) (most : Option Nat) (greedy : Bool)
  deriving DecidableEq, Repr, Inhabited

namespace Pattern

def minLength : Pattern → Nat
  | empty => 0
  | one _ _ => 1
  | check _ => 0
  | group _ p => p.minLength
  | cat p q => p.minLength + q.minLength
  | alt p q => min p.minLength q.minLength
  | copies p least _ _ => least * p.minLength

def ofList : List Pattern → Pattern
  | [] => empty
  | [p] => p
  | p :: ps => cat p (ofList ps)

def choice : List Pattern → Pattern
  | [] => empty
  | [p] => p
  | p :: ps => alt p (choice ps)

end Pattern
end CMakeScript.Regex
