import CMakeScript.Arithmetic
import Mathlib.Algebra.Group.Int.Defs
import Mathlib.Algebra.Group.Nat.Defs
/-! Trees of integer expressions: their values in two's complement of 64 bits, and the texts that
spell them. Parentheses stand wherever a tree departs from the order in which operators bind, and
may stand elsewhere. -/
namespace CMakeScript.Arithmetic

inductive Literal where
  | decimal (n : Nat) (small : n < 2 ^ 63)
  | hexadecimal (n : Nat) (small : n < 2 ^ 64)

inductive Sign where
  | plus
  | minus
  | complement
  deriving DecidableEq, Repr

inductive Expression where
  | literal (l : Literal)
  | unary (sign : Sign) (operand : Expression)
  | binary (op : Operator) (left right : Expression)

/-- The number from -2^63 up to 2^63 that has the same lowest 64 bits. -/
def wrapped (n : Int) : Int := n.bmod (2 ^ 64)

def Literal.value : Literal → Int
  | decimal n _ => n
  | hexadecimal n _ => wrapped n

def Sign.value : Sign → Int → Int
  | plus, n => n
  | minus, n => wrapped (-n)
  | complement, n => -n - 1

def shiftCount (n : Int) : Nat := (n % 64).toNat

def Operator.value (op : Operator) (x y : Int) : Option Int :=
  match op with
  | plus => some (wrapped (x + y))
  | minus => some (wrapped (x - y))
  | times => some (wrapped (x * y))
  | divide => if y = 0 then none else some (wrapped (x.tdiv y))
  | modulo => if y = 0 then none else some (x.tmod y)
  | bitOr => some (BitVec.ofInt 64 x ||| BitVec.ofInt 64 y).toInt
  | bitXor => some (BitVec.ofInt 64 x ^^^ BitVec.ofInt 64 y).toInt
  | bitAnd => some (BitVec.ofInt 64 x &&& BitVec.ofInt 64 y).toInt
  | shiftLeft => some (wrapped (x * 2 ^ shiftCount y))
  | shiftRight => some (x / 2 ^ shiftCount y)

namespace Expression

def value : Expression → Option Int
  | literal l => some l.value
  | unary sign operand => operand.value.map sign.value
  | binary op left right => do op.value (← left.value) (← right.value)

def DividesByZero : Expression → Prop
  | literal _ => False
  | unary _ operand => operand.DividesByZero
  | binary op left right =>
    left.DividesByZero ∨ right.DividesByZero ∨
      ((op = .divide ∨ op = .modulo) ∧ right.value = some 0)

end Expression

def Blank (cs : List Char) : Prop := ∀ c ∈ cs, isBlank c = true

inductive Literal.Spelled : Literal → List Char → Prop where
  | decimal (n : Nat) (small : n < 2 ^ 63) (zeros : Nat) :
      Spelled (decimal n small) (List.replicate zeros '0' ++ Nat.toDigits 10 n)
  | hexadecimal (n : Nat) (small : n < 2 ^ 64) {x : Char} (marks : x = 'x' ∨ x = 'X')
      (zeros : Nat) {digits : List Char} (same : digits.map Char.toLower = Nat.toDigits 16 n) :
      Spelled (hexadecimal n small) ('0' :: x :: (List.replicate zeros '0' ++ digits))

def Sign.spelling : Sign → Char
  | plus => '+'
  | minus => '-'
  | complement => '~'

/-- The characters spell the tree at a place for operators of the level or above. Operands, which
are above all operators, have level 6. -/
inductive Expression.Spelled : Nat → Expression → List Char → Prop where
  | literal {l : Literal} {cs : List Char} : l.Spelled cs → Spelled 6 (literal l) cs
  | unary {e : Expression} {cs blanks : List Char} (sign : Sign) : Blank blanks → Spelled 6 e cs →
      Spelled 6 (unary sign e) (sign.spelling :: (blanks ++ cs))
  | group {e : Expression} {cs before after : List Char} : Blank before → Blank after →
      Spelled 0 e cs → Spelled 6 e ('(' :: (before ++ (cs ++ (after ++ [')']))))
  | binary {op : Operator} {left right : Expression} {cs ds before after : List Char} :
      Blank before → Blank after → Spelled op.level left cs → Spelled (op.level + 1) right ds →
      Spelled op.level (binary op left right)
        (cs ++ (before ++ (op.spelling.toList ++ (after ++ ds))))
  | above {level : Nat} {e : Expression} {cs : List Char} : level < 6 → Spelled (level + 1) e cs →
      Spelled level e cs

def Expression.SpelledBy (e : Expression) (text : String) : Prop :=
  ∃ before cs after, Blank before ∧ Blank after ∧ Expression.Spelled 0 e cs ∧
    text.toList = before ++ (cs ++ after)

end CMakeScript.Arithmetic
