import CMakeScript.Text.CaseFold
import CMakeScript.Text.Word
/-! Sets of characters as a pattern writes them. With case folding, a range also holds every
character that differs from one of its members in case only. -/
namespace CMakeScript.Regex

inductive PosixClass where
  | alnum
  | alpha
  | ascii
  | blank
  | cntrl
  | digit
  | graph
  | lower
  | print
  | punct
  | space
  | upper
  | word
  | xdigit
  deriving DecidableEq, Repr

namespace PosixClass

def ofName? : List Char → Option PosixClass
  | ['a', 'l', 'n', 'u', 'm'] => some alnum
  | ['a', 'l', 'p', 'h', 'a'] => some alpha
  | ['a', 's', 'c', 'i', 'i'] => some ascii
  | ['b', 'l', 'a', 'n', 'k'] => some blank
  | ['c', 'n', 't', 'r', 'l'] => some cntrl
  | ['d', 'i', 'g', 'i', 't'] => some digit
  | ['g', 'r', 'a', 'p', 'h'] => some graph
  | ['l', 'o', 'w', 'e', 'r'] => some lower
  | ['p', 'r', 'i', 'n', 't'] => some print
  | ['p', 'u', 'n', 'c', 't'] => some punct
  | ['s', 'p', 'a', 'c', 'e'] => some space
  | ['u', 'p', 'p', 'e', 'r'] => some upper
  | ['w', 'o', 'r', 'd'] => some word
  | ['x', 'd', 'i', 'g', 'i', 't'] => some xdigit
  | _ => none

def holds (k : PosixClass) (c : Char) : Bool :=
  let n := c.toNat
  match k with
  | alnum => Text.isAlphanumeric c
  | alpha => Text.isLetter c
  | ascii => n < 128
  | blank => c == ' ' || c == '\t'
  | cntrl => n < 32 || n == 127
  | digit => Text.isDigit c
  | graph => 33 ≤ n && n ≤ 126
  | lower => 'a' ≤ c && c ≤ 'z'
  | print => 32 ≤ n && n ≤ 126
  | punct => 33 ≤ n && n ≤ 126 && !Text.isAlphanumeric c
  | space => (9 ≤ n && n ≤ 13) || n == 32
  | upper => 'A' ≤ c && c ≤ 'Z'
  | word => Text.isAlphanumeric c || c == '_'
  | xdigit => Text.isHexDigit c

end PosixClass

inductive CharSet where
  | none
  | range (first last : Char)
  | digit
  | space
  | word
  | posix (k : PosixClass)
  | complement (s : CharSet)
  | union (s t : CharSet)
  | inter (s t : CharSet)
  | difference (s t : CharSet)
  | symmetric (s t : CharSet)
  deriving DecidableEq, Repr, Inhabited

namespace CharSet

def holds (fold : Bool) : CharSet → Char → Bool
  | none, _ => false
  | range first last, c =>
    let within := fun d => first ≤ d && d ≤ last
    within c || (fold && (Text.caseOrbit c).any within)
  | digit, c => Text.isDecimalDigit c
  | space, c => Text.isBlank c
  | word, c => Text.isWordChar c
  | posix k, c => k.holds c || (fold && (Text.caseOrbit c).any k.holds)
  | complement s, c => !s.holds fold c
  | union s t, c => s.holds fold c || t.holds fold c
  | inter s t, c => s.holds fold c && t.holds fold c
  | difference s t, c => s.holds fold c && !t.holds fold c
  | symmetric s t, c => s.holds fold c != t.holds fold c

def single (c : Char) : CharSet := range c c

def any : CharSet := complement none

end CharSet
end CMakeScript.Regex
