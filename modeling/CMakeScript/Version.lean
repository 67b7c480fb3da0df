import CMakeScript.Text.Numeral
/-! Dotted versions: the three-part versions of policies, and the component order used when two
version texts are compared in a condition. -/
namespace CMakeScript

structure Version where
  major : Nat
  minor : Nat
  patch : Nat
  deriving DecidableEq, Repr, Inhabited

namespace Version

def engine : Version := ⟨3, 28, 0⟩

def component? (part : List Char) : Option Nat := Text.natBelow? (Text.bitBound 32) part

def parse? (text : String) : Option Version :=
  match Text.splitOn '.' text.toList with
  | [a] => do some ⟨← component? a, 0, 0⟩
  | [a, b] => do some ⟨← component? a, ← component? b, 0⟩
  | [a, b, c] => do some ⟨← component? a, ← component? b, ← component? c⟩
  | [a, b, c, d] => do
    let v : Version := ⟨← component? a, ← component? b, ← component? c⟩
    let _ ← component? d
    some v
  | _ => none

def compare (a b : Version) : Ordering :=
  (Ord.compare a.major b.major).then <|
    (Ord.compare a.minor b.minor).then (Ord.compare a.patch b.patch)

def render (v : Version) : String :=
  Text.decimal v.major ++ "." ++ Text.decimal v.minor ++ "." ++ Text.decimal v.patch

def looseComponent (part : List Char) : Nat :=
  (Text.natBelow? (Text.bitBound 64) (part.takeWhile Text.isDigit)).getD 0

def looseComponents (text : String) : List Nat :=
  (Text.splitOn '.' text.toList).map looseComponent

def comparePadded : List Nat → List Nat → Ordering
  | [], [] => .eq
  | a :: as, [] => (Ord.compare a 0).then (comparePadded as [])
  | [], b :: bs => (Ord.compare 0 b).then (comparePadded [] bs)
  | a :: as, b :: bs => (Ord.compare a b).then (comparePadded as bs)

/-- Order of two version texts. Anything after the digits of a component is ignored. -/
def compareTexts (a b : String) : Ordering :=
  comparePadded (looseComponents a) (looseComponents b)

end Version
end CMakeScript
