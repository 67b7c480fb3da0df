import CMakeScript.Command.LoopRange
import Mathlib.Tactic.Linarith
/-! Ranges of a loop. A range is refused exactly if its step leads away from its stop. Else it is
what is reached from its start, step by step, without passing its stop, and words of 64 bits are
wide enough to compute it. -/
namespace CMakeScript

namespace Word64

theorem ofIntFits {n : Int} (least : -2 ^ 63 ≤ n) (most : n < 2 ^ 63) :
    ofInt? n = some (Int64.ofInt n) :=
  if_pos ⟨least, most⟩

end Word64

namespace Command

variable {words : List String} {start stop step unit : Int}

def Narrow (n : Int) : Prop := -2 ^ 31 ≤ n ∧ n < 2 ^ 31

theorem rangeBoundNarrow {word : String} {n : Int} (accepted : rangeBound word = .ok n) :
    Narrow n := by
  unfold rangeBound at accepted
  split at accepted
  · split at accepted
    case isTrue inside =>
      cases accepted
      exact inside
    case isFalse => cases accepted
  · cases accepted

theorem rangeBoundName {word : String} {n : Int} (accepted : rangeBound word = .ok n) :
    word ≠ "IN" := by
  rintro rfl
  have refused : rangeBound "IN" = .error "Invalid integer: 'IN'" := by decide +kernel
  cases refused.symm.trans accepted

namespace RangeGiven

theorem narrow (given : RangeGiven words start stop step) :
    Narrow start ∧ Narrow stop ∧ Narrow step := by
  have zero : Narrow 0 := ⟨by decide, by decide⟩
  cases given with
  | stop accepted => exact ⟨zero, rangeBoundNarrow accepted, zero⟩
  | ends first second => exact ⟨rangeBoundNarrow first, rangeBoundNarrow second, zero⟩
  | steps first second third =>
    exact ⟨rangeBoundNarrow first, rangeBoundNarrow second, rangeBoundNarrow third⟩

theorem stepNarrow (given : RangeGiven words start stop step) :
    Narrow (rangeStep start stop step) := by
  unfold rangeStep
  split
  · split <;> exact ⟨by decide, by decide⟩
  · exact given.narrow.2.2

theorem numbers (given : RangeGiven words start stop step) :
    rangeOf words = rangeNumbers start stop step := by
  cases given <;> simp only [rangeOf, List.take, List.mapM_cons, List.mapM_nil, *] <;> rfl

theorem others (given : RangeGiven words start stop step) : "IN" ∉ words := by
  cases given <;> grind [rangeBoundName]

end RangeGiven

theorem rangeStepMoves (start stop step : Int) : rangeStep start stop step ≠ 0 := by
  unfold rangeStep
  split
  · split <;> decide
  · assumption

theorem rangeStepTowards (towards : 0 ≤ (stop - start) * step) :
    0 ≤ (stop - start) * rangeStep start stop step := by
  unfold rangeStep
  split
  · split <;> omega
  · exact towards

theorem quotientIff {a b : Int} (least : 0 ≤ a) (positive : 0 < b) (k : Nat) :
    (k : Int) < a.tdiv b + 1 ↔ k * b ≤ a := by
  rw [Int.tdiv_eq_ediv_of_nonneg least, Int.lt_add_one_iff, Int.le_ediv_iff_mul_le positive]

theorem betweenUp {n : Int} (up : start ≤ stop) (least : 0 ≤ n) :
    Between start stop (start + n) ↔ n ≤ stop - start := by
  unfold Between
  omega

theorem betweenDown {n : Int} (down : stop ≤ start) (most : n ≤ 0) :
    Between start stop (start + n) ↔ stop - start ≤ n := by
  unfold Between
  omega

theorem quotientCounts (moves : unit ≠ 0) (towards : 0 ≤ (stop - start) * unit) (k : Nat) :
    (k : Int) < (stop - start).tdiv unit + 1 ↔ Between start stop (start + k * unit) := by
  rcases Int.lt_or_gt_of_ne moves with down | up
  · have least : stop - start ≤ 0 := by nlinarith
    have passed : k * unit ≤ 0 := by nlinarith
    rw [← Int.neg_tdiv_neg, quotientIff (by omega) (by omega), betweenDown (by omega) passed,
      Int.mul_neg, neg_le_neg_iff]
  · have least : 0 ≤ stop - start := by nlinarith
    have passed : 0 ≤ k * unit := by positivity
    rw [quotientIff least up, betweenUp (by omega) passed]

theorem leadsAwayIff :
    (stop < start ∧ 0 < step) ∨ (start < stop ∧ step < 0) ↔ (stop - start) * step < 0 := by
  rw [mul_neg_iff]
  omega

theorem rangeNumbersAway (away : (stop - start) * step < 0) :
    ∃ reason, rangeNumbers start stop step = .error reason := by
  have still : step ≠ 0 := by
    rintro rfl
    simp at away
  unfold rangeNumbers
  simp only [if_neg still]
  exact ⟨_, if_pos (leadsAwayIff.mpr away)⟩

theorem rangeNumbersTowards (towards : 0 ≤ (stop - start) * step) :
    ∃ count : Nat, (stop - start).tdiv (rangeStep start stop step) + 1 = count ∧
      rangeNumbers start stop step =
        .ok ((List.range count).map fun (k : Nat) => start + k * rangeStep start stop step) := by
  have counts := quotientCounts (rangeStepMoves start stop step) (rangeStepTowards towards)
  have first := (counts 0).mpr (by unfold Between; omega)
  have kept : ¬(stop - start) * rangeStep start stop step < 0 :=
    not_lt.mpr (rangeStepTowards towards)
  obtain ⟨count, isCount⟩ := Int.eq_ofNat_of_zero_le (Int.le_of_lt first)
  refine ⟨count, isCount, (if_neg (leadsAwayIff.not.mpr kept)).trans ?_⟩
  change Except.ok ((List.range ((stop - start).tdiv (rangeStep start stop step) + 1).toNat).map
    fun (k : Nat) => start + k * rangeStep start stop step) = _
  rw [isCount, Int.toNat_natCast]

theorem Narrow.toInt {n : Int} (narrow : Narrow n) : (Int64.ofInt n).toInt = n :=
  Int64.toInt_ofInt_of_le (by have := narrow.1; omega) (by have := narrow.2; omega)

theorem quotientNarrow (begins : Narrow start) (stops : Narrow stop) (unit : Int) :
    -2 ^ 32 ≤ (stop - start).tdiv unit ∧ (stop - start).tdiv unit ≤ 2 ^ 32 := by
  have small := Int.natAbs_tdiv_le_natAbs (stop - start) unit
  unfold Narrow at begins stops
  omega

theorem rangeCountFits (begins : Narrow start) (stops : Narrow stop) (wide : Narrow unit)
    (moves : unit ≠ 0) :
    (rangeCount? (.ofInt start) (.ofInt stop) (.ofInt unit)).map Int64.toInt =
      some ((stop - start).tdiv unit + 1) := by
  have nonzero : Int64.ofInt unit ≠ 0 := by
    intro zero
    exact moves (wide.toInt.symm.trans (congrArg Int64.toInt zero))
  have quotient := quotientNarrow begins stops unit
  obtain ⟨least, most⟩ : -2 ^ 32 ≤ stop - start ∧ stop - start ≤ 2 ^ 32 := by
    unfold Narrow at begins stops
    omega
  unfold rangeCount? Word64.sub? Word64.div? Word64.add?
  simp only [if_neg nonzero]
  rw [begins.toInt, stops.toInt, Word64.ofIntFits (by omega) (by omega), Option.bind_eq_bind,
    Option.bind_some, wide.toInt, Int64.toInt_ofInt_of_le (by omega) (by omega),
    Word64.ofIntFits (by omega) (by omega), Option.bind_some,
    Int64.toInt_ofInt_of_le (by omega) (by omega), Int64.toInt_one,
    Word64.ofIntFits (by omega) (by omega), Option.map_some,
    Int64.toInt_ofInt_of_le (by omega) (by omega)]

theorem rangeItemFits (begins : Narrow start) (stops : Narrow stop) (wide : Narrow unit) {i : Nat}
    (few : (i : Int) ≤ 2 ^ 32) (inside : Between start stop (start + i * unit)) :
    (rangeItem? (.ofInt start) (.ofInt unit) i).map Int64.toInt = some (start + i * unit) := by
  obtain ⟨least, most⟩ : -2 ^ 32 ≤ i * unit ∧ i * unit ≤ 2 ^ 32 := by
    unfold Narrow at begins stops
    unfold Between at inside
    omega
  obtain ⟨first, last⟩ := begins
  unfold rangeItem? Word64.mul? Word64.add?
  rw [Word64.ofIntFits (by omega) (by omega), Option.bind_eq_bind, Option.bind_some, wide.toInt,
    Int64.toInt_ofInt_of_le (by omega) (by omega), Word64.ofIntFits (by omega) (by omega),
    Option.bind_some, Int64.toInt_ofInt_of_le (by omega) (by omega),
    Int64.toInt_ofInt_of_le (by omega) (by omega), Word64.ofIntFits (by omega) (by omega),
    Option.map_some, Int64.toInt_ofInt_of_le (by omega) (by omega)]

theorem rangeOpens {name : String} {numbers : List Int} (other : name ≠ "IN")
    (given : RangeGiven words start stop step) (answer : rangeOf words = .ok numbers) :
    foreachLoop (name :: "RANGE" :: words) =
      openForeach (name :: numbers.map Text.signedDecimal) 1 false := by
  have plain : (name :: "RANGE" :: words).contains "IN" = false := by
    simpa [other.symm] using given.others
  simp only [foreachLoop, plain, answer, Bool.false_eq_true, if_false]

/-- What the words of a range stand for, with each number where its place is. -/
theorem rangeReachesStop (given : RangeGiven words start stop step) :
    let unit := rangeStep start stop step
    ((∃ reason, rangeOf words = .error reason) ↔ start ≠ stop ∧ (stop - start) * step < 0) ∧
    (¬(start ≠ stop ∧ (stop - start) * step < 0) → ∃ count : Nat, 0 < count ∧
      (∀ k : Nat, k < count ↔ Between start stop (start + k * unit)) ∧
      let numbers := (List.range count).map fun (k : Nat) => start + k * unit
      rangeOf words = .ok numbers ∧
      (∀ name ≠ "IN", foreachLoop (name :: "RANGE" :: words) =
        openForeach (name :: numbers.map Text.signedDecimal) 1 false) ∧
      (rangeCount? (.ofInt start) (.ofInt stop) (.ofInt unit)).map Int64.toInt =
        some (count : Int) ∧
      ∀ i < count, (rangeItem? (.ofInt start) (.ofInt unit) i).map Int64.toInt =
        some (start + i * unit)) := by
  intro unit
  obtain ⟨begins, stops, -⟩ := given.narrow
  have moves : unit ≠ 0 := rangeStepMoves start stop step
  by_cases away : (stop - start) * step < 0
  · have apart : start ≠ stop := by
      rintro rfl
      simp at away
    rw [given.numbers]
    exact ⟨⟨fun _ => ⟨apart, away⟩, fun _ => rangeNumbersAway away⟩,
      fun kept => absurd ⟨apart, away⟩ kept⟩
  · have towards := not_lt.mp away
    obtain ⟨count, isCount, numbers⟩ := rangeNumbersTowards towards
    have answer := given.numbers.trans numbers
    have counts (k : Nat) : k < count ↔ Between start stop (start + k * unit) := by
      rw [← quotientCounts moves (rangeStepTowards towards), isCount, Int.ofNat_lt]
    have few := (quotientNarrow begins stops (rangeStep start stop step)).2
    refine ⟨⟨?_, fun passes => absurd passes.2 away⟩, fun _ => ⟨count, ?_, counts, answer,
      fun name other => rangeOpens other given answer, ?_, fun i inside => ?_⟩⟩
    · rintro ⟨reason, refused⟩
      cases refused.symm.trans answer
    · exact (counts 0).mpr (by unfold Between; omega)
    · rw [rangeCountFits begins stops given.stepNarrow moves, isCount]
    · exact rangeItemFits begins stops given.stepNarrow (by omega) ((counts i).mp inside)

theorem widestRangeDown :
    let words := ["2147483647", " -2147483648 ", "-1000000000"]
    RangeGiven words 2147483647 (-2147483648) (-1000000000) ∧
      rangeOf words = .ok [2147483647, 1147483647, 147483647, -852516353, -1852516353] := by
  intro words
  have given : RangeGiven words 2147483647 (-2147483648) (-1000000000) :=
    .steps (by decide +kernel) (by decide +kernel) (by decide +kernel)
  obtain ⟨count, -, counts, answer, -⟩ := (rangeReachesStop given).2 (by decide)
  have five : count = 5 := by
    have last := (counts 4).mpr (.inr (by decide))
    have none := (counts 5).not.mpr (by unfold Between; decide)
    omega
  rw [five] at answer
  exact ⟨given, answer⟩

end Command
end CMakeScript
