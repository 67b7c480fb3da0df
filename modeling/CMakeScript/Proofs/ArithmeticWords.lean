import CMakeScript.Arithmetic.Expression
/-! Trees computed in words of 64 bits. The words are the values of the tree, and computing fails
exactly where something is divided by zero. -/
namespace CMakeScript.Arithmetic

def Literal.word : Literal → Int64
  | decimal n _ => Int64.ofNat n
  | hexadecimal n _ => Int64.ofNat n

def Sign.apply : Sign → Int64 → Int64
  | plus, w => w
  | minus, w => -w
  | complement, w => ~~~w

def Expression.outcome : Expression → Except Error Int64
  | literal l => .ok l.word
  | unary sign operand => operand.outcome.map sign.apply
  | binary op left right => do
    let x ← left.outcome
    let y ← right.outcome
    Arithmetic.apply op x y

theorem wrappedFits {n : Int} (least : -2 ^ 63 ≤ n) (most : n < 2 ^ 63) : wrapped n = n :=
  Int.bmod_eq_of_le (by omega) (by omega)

theorem Literal.wordValue (l : Literal) : l.word.toInt = l.value := by
  cases l with
  | decimal n small => exact Int64.toInt_ofNat_of_lt small
  | hexadecimal n small => exact Int64.toInt_ofNat

theorem Sign.applyValue (sign : Sign) (w : Int64) :
    (sign.apply w).toInt = sign.value w.toInt := by
  cases sign with
  | plus => rfl
  | minus => exact Int64.toInt_neg w
  | complement =>
    have least := w.le_toInt
    have most := w.toInt_lt
    exact (Int64.toInt_not w).trans (wrappedFits (by omega) (by omega))

theorem shiftCountWord (w : Int64) : (w.toBitVec.smod 64).toNat = shiftCount w.toInt := by
  have whole : (w.toBitVec.smod 64).toInt = w.toInt % 64 := by
    rw [BitVec.toInt_smod]
    exact Int.fmod_eq_emod_of_nonneg _ (by decide)
  have fits := (w.toBitVec.smod 64).isLt
  rw [BitVec.toInt_eq_toNat_cond] at whole
  unfold shiftCount
  omega

theorem toIntShiftLeft (x y : Int64) :
    (x <<< y).toInt = wrapped (x.toInt * 2 ^ shiftCount y.toInt) := by
  change (x <<< y).toBitVec.toInt = wrapped (x.toBitVec.toInt * _)
  rw [Int64.toBitVec_shiftLeft, BitVec.shiftLeft_eq', shiftCountWord, BitVec.toInt_shiftLeft,
    Nat.shiftLeft_eq, BitVec.toInt_eq_toNat_bmod, wrapped, Int.bmod_mul_bmod]
  norm_cast

theorem toIntShiftRight (x y : Int64) :
    (x >>> y).toInt = x.toInt / 2 ^ shiftCount y.toInt := by
  change (x >>> y).toBitVec.toInt = x.toBitVec.toInt / _
  rw [Int64.toBitVec_shiftRight, BitVec.sshiftRight_eq', shiftCountWord, BitVec.toInt_sshiftRight,
    Int.shiftRight_eq_div_pow]
  norm_cast

theorem ofIntWord (w : Int64) : BitVec.ofInt 64 w.toInt = w.toBitVec := BitVec.ofInt_toInt

theorem Operator.applyValue (op : Operator) (x y : Int64) :
    (apply op x y).toOption.map Int64.toInt = op.value x.toInt y.toInt := by
  have zero : y = 0 ↔ y.toInt = 0 := Int64.toInt_inj.symm
  cases op with
  | plus => exact congrArg some (Int64.toInt_add x y)
  | minus => exact congrArg some (Int64.toInt_sub x y)
  | times => exact congrArg some (Int64.toInt_mul x y)
  | divide =>
    simp only [apply, value, zero]
    split
    · rfl
    · exact congrArg some (Int64.toInt_div x y)
  | modulo =>
    simp only [apply, value, zero]
    split
    · rfl
    · exact congrArg some (Int64.toInt_mod x y)
  | bitOr =>
    simp only [value, ofIntWord]
    rfl
  | bitXor =>
    simp only [value, ofIntWord]
    rfl
  | bitAnd =>
    simp only [value, ofIntWord]
    rfl
  | shiftLeft => exact congrArg some (toIntShiftLeft x y)
  | shiftRight => exact congrArg some (toIntShiftRight x y)

theorem Operator.applyFault {op : Operator} {x y : Int64} {error : Error}
    (fails : apply op x y = .error error) : error.isSyntax = false := by
  cases op <;> simp only [apply, reduceCtorEq] at fails
  case divide | modulo =>
    split at fails <;> cases fails
    rfl

theorem Operator.valueNone (op : Operator) (x y : Int) :
    op.value x y = none ↔ (op = .divide ∨ op = .modulo) ∧ y = 0 := by
  cases op <;> simp [value]

namespace Expression

theorem outcomeValue (e : Expression) : e.outcome.toOption.map Int64.toInt = e.value := by
  induction e with
  | literal l => exact congrArg some l.wordValue
  | unary sign operand ih =>
    rw [value, ← ih, outcome]
    cases operand.outcome with
    | error => rfl
    | ok w => exact congrArg some (sign.applyValue w)
  | binary op left right leftIh rightIh =>
    rw [value, ← leftIh, ← rightIh, outcome]
    cases left.outcome with
    | error => rfl
    | ok x =>
      cases right.outcome with
      | error => rfl
      | ok y => exact op.applyValue x y

theorem outcomeFault {e : Expression} {error : Error} (fails : e.outcome = .error error) :
    error.isSyntax = false := by
  induction e with
  | literal => cases fails
  | unary sign operand ih =>
    rw [outcome] at fails
    cases run : operand.outcome with
    | ok =>
      rw [run] at fails
      cases fails
    | error =>
      rw [run] at fails
      cases fails
      exact ih run
  | binary op left right leftIh rightIh =>
    rw [outcome] at fails
    cases first : left.outcome with
    | error =>
      rw [first] at fails
      cases fails
      exact leftIh first
    | ok x =>
      cases second : right.outcome with
      | error =>
        rw [first, second] at fails
        cases fails
        exact rightIh second
      | ok y =>
        rw [first, second] at fails
        exact Operator.applyFault fails

theorem valueNone (e : Expression) : e.value = none ↔ e.DividesByZero := by
  induction e with
  | literal => simp [value, DividesByZero]
  | unary sign operand ih => simp [value, DividesByZero, ih]
  | binary op left right leftIh rightIh =>
    rw [value, DividesByZero, ← leftIh, ← rightIh]
    cases left.value with
    | none => simp
    | some x =>
      cases right.value with
      | none => simp
      | some y => simp [op.valueNone]

end Expression

end CMakeScript.Arithmetic
