import CMakeScript.ListFile.Basic
import CMakeScript.ListFile.Lexeme
import Mathlib.Data.List.Forall2
/-! What a list file consists of, said without reading it: the values that names and arguments can
have, and the texts that commands can be written as. The level of a bracket argument is free as
long as its value, followed by a part of the closing mark, does not hold that mark. -/
namespace CMakeScript

namespace Lexeme

def IsName (cs : List Char) : Prop :=
  ∃ c rest, cs = c :: rest ∧ isNameStart c = true ∧ ∀ d ∈ rest, isNameRest d = true

inductive IsSpan : List Char → Prop where
  | nil : IsSpan []
  | plain {c cs} (quote : c ≠ '"') (slash : c ≠ '\\') (rest : IsSpan cs) : IsSpan (c :: cs)
  | pair {c cs} (rest : IsSpan cs) : IsSpan ('\\' :: c :: cs)

inductive IsQuotedValue : List Char → Prop where
  | nil : IsQuotedValue []
  | plain {c cs} (quote : c ≠ '"') (slash : c ≠ '\\') (rest : IsQuotedValue cs) :
    IsQuotedValue (c :: cs)
  | pair {c cs} (sameLine : isLineEnd c = false) (rest : IsQuotedValue cs) :
    IsQuotedValue ('\\' :: c :: cs)

inductive IsUnquotedText : List Char → Prop where
  | nil : IsUnquotedText []
  | plain {c cs} (inside : endsUnquoted c = false) (quote : c ≠ '"') (slash : c ≠ '\\')
    (rest : IsUnquotedText cs) : IsUnquotedText (c :: cs)
  | pair {c cs} (rest : IsUnquotedText cs) : IsUnquotedText ('\\' :: c :: cs)
  | span {inside cs} (quoted : IsSpan inside) (rest : IsUnquotedText cs) :
    IsUnquotedText ('"' :: inside ++ '"' :: cs)

structure IsUnquotedValue (cs : List Char) : Prop where
  occupied : cs ≠ []
  text : IsUnquotedText cs
  notQuoted : cs.head? ≠ some '"'
  notBracket : ∀ level, ¬bracketMark '[' level <+: cs

/-- A mark of this level after the text closes it, and no mark of this level does so before. -/
def ClosesAfter (level : Nat) (cs : List Char) : Prop :=
  ¬bracketMark ']' level <:+: cs ++ ']' :: List.replicate level '='

end Lexeme

namespace Argument

def IsMark (mark : String) (a : Argument) : Prop := a.delimiter = .unquoted ∧ a.value = mark

def WellFormed (a : Argument) : Prop :=
  match a.delimiter with
  | .bracket => True
  | .quoted => Lexeme.IsQuotedValue a.value.toList
  | .unquoted => a.value = "(" ∨ a.value = ")" ∨ Lexeme.IsUnquotedValue a.value.toList

/-- Parentheses among the arguments close each other if that many are open before. -/
inductive Nested : Nat → List Argument → Prop where
  | nil : Nested 0 []
  | opened {depth a rest} (mark : a.IsMark "(") (inner : Nested (depth + 1) rest) :
    Nested depth (a :: rest)
  | closed {depth a rest} (mark : a.IsMark ")") (outer : Nested depth rest) :
    Nested (depth + 1) (a :: rest)
  | other {depth a rest} (notOpen : ¬a.IsMark "(") (notClose : ¬a.IsMark ")")
    (tail : Nested depth rest) : Nested depth (a :: rest)

def spelling (a : Argument) : String × Delimiter := (a.value, a.delimiter)

def text (level : Nat) (a : Argument) : List Char :=
  match a.delimiter with
  | .unquoted => a.value.toList
  | .quoted => '"' :: a.value.toList ++ ['"']
  | .bracket =>
    Lexeme.bracketMark '[' level ++ '\n' :: a.value.toList ++ Lexeme.bracketMark ']' level

def WrittenAs (a : Argument) (cs : List Char) : Prop :=
  ∃ level, (a.delimiter = .bracket → Lexeme.ClosesAfter level a.value.toList) ∧
    cs = a.text level

end Argument

namespace Command

structure WellFormed (c : Command) : Prop where
  name : Lexeme.IsName c.name.toList
  arguments : ∀ a ∈ c.arguments, a.WellFormed
  nested : Argument.Nested 0 c.arguments

def spelling (c : Command) : String × List (String × Delimiter) :=
  (c.name, c.arguments.map Argument.spelling)

def WrittenAs (c : Command) (cs : List Char) : Prop :=
  ∃ words, List.Forall₂ Argument.WrittenAs c.arguments words ∧
    cs = c.name.toList ++ '(' :: [' '].intercalate words ++ [')', '\n']

def AllWrittenAs (commands : List Command) (cs : List Char) : Prop :=
  ∃ lines, List.Forall₂ WrittenAs commands lines ∧ cs = lines.flatten

end Command
end CMakeScript
