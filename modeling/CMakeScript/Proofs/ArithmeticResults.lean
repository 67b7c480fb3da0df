import CMakeScript.Command.Math
import CMakeScript.Proofs.ArithmeticTrees
import CMakeScript.Proofs.CurrentScope
/-! Results read again. The text of a word is the text of a tree whose value is the word, be it in
the bits that the word has or in decimal. One decimal text is out of range, as its digits alone are
too large. -/
namespace CMakeScript
namespace Arithmetic

open Expression

variable {v : Int64} {level : Nat} {e : Expression} {cs : List Char} {text : String}

theorem spelledAlone (spelled : Spelled level e cs) (inside : level ≤ 6) (same : text.toList = cs) :
    e.SpelledBy text :=
  ⟨[], cs, [], nofun, nofun, spelled.lower (Nat.zero_le level) inside, by simp [same]⟩

theorem wordOfBits (v : Int64) : Int64.ofNat v.toUInt64.toNat = v := by
  have same : v.toUInt64.toInt64 = v := Int64.toInt64_toUInt64 v
  rw [← UInt64.toInt64_ofNat', UInt64.ofNat_toNat, same]

theorem bitsSpelled (v : Int64) :
    (Expression.literal (.hexadecimal v.toUInt64.toNat v.toUInt64.toNat_lt)).SpelledBy
      (hexadecimal v) :=
  spelledAlone (.literal (.hexadecimal _ v.toUInt64.toNat_lt (.inl rfl) 0 (digitsLower _)))
    (Nat.le_refl 6) (by simp [hexadecimal])

theorem evaluateHexadecimal (v : Int64) : evaluate (hexadecimal v) = .ok v :=
  (bitsSpelled v).evaluates.trans (congrArg Except.ok (wordOfBits v))

theorem decimalNatural {n : Nat} (same : v.toInt = n) (small : n < 2 ^ 63) :
    evaluate (decimal v) = .ok v := by
  have text : (decimal v).toList = Nat.toDigits 10 n := by
    simp [decimal, same, Text.signedDecimal, Text.decimal]
  have spelled : (Expression.literal (.decimal n small)).SpelledBy (decimal v) :=
    spelledAlone (.literal (.decimal n small 0)) (Nat.le_refl 6) text
  have word : Int64.ofNat n = v := by
    rw [← Int64.toInt_inj, Int64.toInt_ofNat_of_lt small, same]
  exact spelled.evaluates.trans (congrArg Except.ok word)

theorem decimalNegated {n : Nat} (same : v.toInt = Int.negSucc n) (small : n + 1 < 2 ^ 63) :
    evaluate (decimal v) = .ok v := by
  have text : (decimal v).toList = '-' :: Nat.toDigits 10 (n + 1) := by
    simp [decimal, same, Text.signedDecimal, Text.decimal]
  have none : Blank [] := nofun
  have spelled : (Expression.unary .minus (.literal (.decimal (n + 1) small))).SpelledBy
      (decimal v) :=
    spelledAlone (.unary .minus none (.literal (.decimal (n + 1) small 0)))
      (Nat.le_refl 6) text
  have word : -Int64.ofNat (n + 1) = v := by
    rw [← Int64.toInt_inj, Int64.toInt_neg_ofNat_of_le (Nat.le_of_lt small), same]
    rfl
  exact spelled.evaluates.trans (congrArg Except.ok word)

theorem evaluateLeast : evaluate (decimal Int64.minValue) = .error .outOfRange := by
  decide +kernel

theorem evaluateDecimal (v : Int64) :
    evaluate (decimal v) = if v = Int64.minValue then .error .outOfRange else .ok v := by
  have most := v.toInt_lt
  have least := v.le_toInt
  split
  case isTrue least =>
    rw [least]
    exact evaluateLeast
  case isFalse other =>
    have above : v.toInt ≠ -2 ^ 63 := fun same => other (Int64.toInt_inj.mp same)
    cases same : v.toInt with
    | ofNat n =>
      rw [same, Int.ofNat_eq_natCast] at most
      exact decimalNatural same (by omega)
    | negSucc n => exact decimalNegated same (by omega)

end Arithmetic
namespace Command

inductive ResultFormat where
  | unstated
  | decimal
  | hexadecimal
  deriving DecidableEq, Repr

namespace ResultFormat

def words : ResultFormat → List String
  | unstated => []
  | decimal => ["OUTPUT_FORMAT", "DECIMAL"]
  | hexadecimal => ["OUTPUT_FORMAT", "HEXADECIMAL"]

def text : ResultFormat → Int64 → String
  | unstated | decimal => Arithmetic.decimal
  | hexadecimal => Arithmetic.hexadecimal

theorem evaluateText (f : ResultFormat) (v : Int64) :
    Arithmetic.evaluate (f.text v) =
      if f ≠ hexadecimal ∧ v = Int64.minValue then .error .outOfRange else .ok v := by
  cases f with
  | unstated | decimal => simpa [text] using Arithmetic.evaluateDecimal v
  | hexadecimal => exact Arithmetic.evaluateHexadecimal v

end ResultFormat

variable {e : Engine} {v : Int64}

theorem mathFormatted (output expression : String) (f : ResultFormat) (e : Engine) :
    math ("EXPR" :: output :: expression :: f.words) e =
      mathExpression output expression f.text (e.define output "ERROR") := by
  cases f <;> rfl

theorem mathYields {expression : String} (evaluates : Arithmetic.evaluate expression = .ok v)
    (writable : e.Writable) (output : String) (f : ResultFormat) :
    ∃ e', math ("EXPR" :: output :: expression :: f.words) e = (.done, e') ∧ e'.Writable ∧
      e'.definition? output = some (f.text v) := by
  have before := writable.define output "ERROR"
  refine ⟨_, ?_, before.define output (f.text v), before.shows output (f.text v)⟩
  rw [mathFormatted]
  unfold mathExpression
  rw [evaluates]
  rfl

theorem mathFails {expression : String} {error : Arithmetic.Error}
    (fails : Arithmetic.evaluate expression = .error error) (writable : e.Writable)
    (output : String) (f : ResultFormat) :
    ∃ e', math ("EXPR" :: output :: expression :: f.words) e =
        (.failed (error.message expression), e') ∧
      e'.definition? output = some "ERROR" := by
  refine ⟨_, ?_, writable.shows output "ERROR"⟩
  rw [mathFormatted]
  unfold mathExpression
  rw [fails]
  rfl

/-- Every result can be evaluated again in the format it was written in, and has the same value,
but for the least of them in decimal. So can the variable that a command leaves it in. -/
theorem resultsFedBack (v : Int64) :
    Arithmetic.evaluate (Arithmetic.hexadecimal v) = .ok v ∧
    Arithmetic.evaluate (Arithmetic.decimal v) =
      (if v = Int64.minValue then .error .outOfRange else .ok v) ∧
    ∀ {e : Engine} {expression : String}, e.Writable → Arithmetic.evaluate expression = .ok v →
      ∀ (output : String) (f : ResultFormat),
      let first := math ("EXPR" :: output :: expression :: f.words) e
      first.1 = .done ∧ first.2.definition? output = some (f.text v) ∧
      ∀ (again : String) (g : ResultFormat),
        let second := math ("EXPR" :: again :: first.2.value output :: g.words) first.2
        if f ≠ .hexadecimal ∧ v = Int64.minValue then
          second.1 = .failed (Arithmetic.Error.outOfRange.message (f.text v)) ∧
            second.2.definition? again = some "ERROR"
        else second.1 = .done ∧ second.2.definition? again = some (g.text v) := by
  refine ⟨Arithmetic.evaluateHexadecimal v, Arithmetic.evaluateDecimal v,
    fun {e expression} writable evaluates output f => ?_⟩
  obtain ⟨e', ran, writable, shown⟩ := mathYields evaluates writable output f
  intro first
  have isFirst : first = (.done, e') := ran
  rw [isFirst]
  refine ⟨rfl, shown, fun again g => ?_⟩
  have value : e'.value output = f.text v := by
    unfold Engine.value
    rw [shown]
    rfl
  have evaluates := f.evaluateText v
  rw [value]
  split at evaluates
  case isTrue least =>
    obtain ⟨e'', ran, shown⟩ := mathFails evaluates writable again g
    rw [if_pos least, ran]
    exact ⟨rfl, shown⟩
  case isFalse other =>
    obtain ⟨e'', ran, -, shown⟩ := mathYields evaluates writable again g
    rw [if_neg other, ran]
    exact ⟨rfl, shown⟩

theorem leastFedBack :
    let e := Engine.start { mode := .script } {} []
    let hexadecimal := math ["EXPR", "h", "1 << 63", "OUTPUT_FORMAT", "HEXADECIMAL"] e
    let decimal := math ["EXPR", "d", "1 << 63"] e
    Arithmetic.evaluate "1 << 63" = .ok Int64.minValue ∧
    hexadecimal.2.definition? "h" = some "0x8000000000000000" ∧
    (math ["EXPR", "x", hexadecimal.2.value "h"] hexadecimal.2).2.definition? "x" =
      some "-9223372036854775808" ∧
    decimal.2.definition? "d" = some "-9223372036854775808" ∧
    (math ["EXPR", "x", decimal.2.value "d"] decimal.2).1 =
      .failed ("cannot evaluate the expression: \"-9223372036854775808\": " ++
        "a numeric value is out of range.") := by
  intro e hexadecimal decimal
  have writable : e.Writable :=
    Engine.writableReady (Engine.homeboundStart { mode := .script } {} []) rfl
  have evaluates : Arithmetic.evaluate "1 << 63" = .ok Int64.minValue := by decide +kernel
  have fedBack := (resultsFedBack Int64.minValue).2.2 writable evaluates
  obtain ⟨-, shownBits, again⟩ := fedBack "h" .hexadecimal
  obtain ⟨-, shown, rejected⟩ := fedBack "d" .unstated
  exact ⟨evaluates, shownBits, (again "x" .unstated).2, shown, (rejected "x" .unstated).1⟩

end Command
end CMakeScript
