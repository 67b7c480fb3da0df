import CMakeScript.Condition
/-! Boolean expressions over constants, the words that spell them, and what they mean. At most one
connective stands between parentheses; a chain has any number of them and no parentheses. -/
namespace CMakeScript.Condition

inductive Constant where
  | on (text : String) (known : ListValue.isOn text = true)
  | off (text : String) (known : ListValue.isOff text = true)

inductive Connective where
  | conjunction
  | disjunction
  deriving DecidableEq, Repr

namespace Constant

def word : Constant → Word
  | on text _ => ⟨text, false⟩
  | off text _ => ⟨text, false⟩

def holds : Constant → Bool
  | on _ _ => true
  | off _ _ => false

end Constant

namespace Connective

def word : Connective → Word
  | conjunction => ⟨"AND", false⟩
  | disjunction => ⟨"OR", false⟩

def apply : Connective → Bool → Bool → Bool
  | conjunction, a, b => a && b
  | disjunction, a, b => a || b

end Connective

mutual

inductive Operand where
  | constant (c : Constant)
  | negation (operand : Operand)
  | group (inner : Expression)

inductive Expression where
  | single (operand : Operand)
  | joined (left : Operand) (c : Connective) (right : Operand)

end

mutual

def Operand.words : Operand → List Word
  | .constant c => [c.word]
  | .negation operand => ⟨"NOT", false⟩ :: operand.words
  | .group inner => ⟨"(", false⟩ :: inner.words ++ [⟨")", false⟩]

def Expression.words : Expression → List Word
  | .single operand => operand.words
  | .joined left c right => left.words ++ c.word :: right.words

end

mutual

def Operand.holds : Operand → Bool
  | .constant c => c.holds
  | .negation operand => !operand.holds
  | .group inner => inner.holds

def Expression.holds : Expression → Bool
  | .single operand => operand.holds
  | .joined left c right => c.apply left.holds right.holds

end

structure Chain where
  first : Constant
  rest : List (Connective × Constant)

namespace Chain

def words (chain : Chain) : List Word :=
  chain.first.word :: chain.rest.flatMap fun (c, operand) => [c.word, operand.word]

def connectives (chain : Chain) : List Connective := chain.rest.map Prod.fst

def leftToRight (chain : Chain) : Bool :=
  chain.rest.foldl (fun value (c, operand) => c.apply value operand.holds) chain.first.holds

end Chain

def StaysOpen (words : List Word) : Prop :=
  ∀ inside, inside <+: words →
    inside.countP (·.value == ")") ≤ inside.countP (·.value == "(")

instance (words) : Decidable (StaysOpen words) :=
  decidable_of_iff (∀ n ≤ words.length,
      (words.take n).countP (·.value == ")") ≤ (words.take n).countP (·.value == "("))
    ⟨fun all inside front => by
      rw [List.prefix_iff_eq_take.mp front]
      exact all _ front.length_le,
    fun all n _ => all _ (List.take_prefix n words)⟩

/-- Some opening parenthesis has no closing one that matches it. -/
def Unclosed (words : List Word) : Prop :=
  ∃ before after, words = before ++ ⟨"(", false⟩ :: after ∧ StaysOpen after

end CMakeScript.Condition
