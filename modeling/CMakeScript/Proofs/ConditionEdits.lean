import CMakeScript.Condition
import CMakeScript.Proofs.Edits
/-! Conditions are evaluated by edits only: warnings, and the variables of the last match. -/
namespace CMakeScript
open Step
namespace Condition

theorem warnQuotedEdits (s : Setting) (detail : String) : (warnQuoted s detail).Edits := by
  unfold warnQuoted
  refine editsGetBind fun e => ?_
  split
  · exact atSetBind (.one (.quoteWarnings _))
      (editsModify fun e => .issueAt e .authorWarning (by decide) _ _)
  · exact .refl e

theorem isKeywordEdits (s : Setting) (keyword : String) (w : Word) :
    (isKeyword s keyword w).Edits := by
  unfold isKeyword
  split
  · exact editsPure false
  · split
    · exact editsPure false
    · split
      · exact editsBind (warnQuotedEdits s _) fun _ => editsPure true
      · exact editsPure true

theorem keywordInEdits {α : Type} (s : Setting) (w : Word) (table : List (String × α)) :
    (keywordIn s w table).Edits := by
  induction table with
  | nil => exact editsPure none
  | cons entry rest ih =>
    unfold keywordIn
    refine editsBind (isKeywordEdits s _ w) fun found => ?_
    split
    · exact editsPure _
    · exact ih

theorem definitionOfEdits (s : Setting) (w : Word) : (definitionOf s w).Edits := by
  unfold definitionOf
  split
  · exact editsPure none
  · refine editsBind editsGet fun e => ?_
    dsimp only
    split
    · exact editsBind (warnQuotedEdits s _) fun _ => editsPure _
    · exact editsPure _

theorem textOfEdits (s : Setting) (w : Word) : (textOf s w).Edits :=
  editsBind (definitionOfEdits s w) fun _ => editsPure _

theorem truthEdits (s : Setting) (w : Word) : (truth s w).Edits := by
  unfold truth
  split
  · exact editsPure true
  · split
    · exact editsPure false
    · split
      · exact editsPure _
      · exact editsBind (definitionOfEdits s w) fun _ => editsPure _

theorem matchPatternEdits (s : Setting) (subject : Word) (pattern : String) :
    EditsOrFails (matchPattern s subject pattern) := by
  unfold matchPattern
  refine tryBind tryGet fun e => tryBind (tryLift (textOfEdits s subject)) fun text => ?_
  refine tryBind (tryModify .clearMatches) fun _ => ?_
  split
  · exact tryThrow _
  · split
    · exact tryBind (tryModify fun e => .storeMatch e _) fun _ => tryPure true
    · exact tryPure false

theorem compareEdits (s : Setting) (op : Operator) (left right : Word) :
    (compare s op left right).Edits := by
  unfold compare
  cases op with
  | numeric c =>
    refine editsBind (textOfEdits s left) fun l => editsBind (textOfEdits s right) fun r => ?_
    split
    · exact editsPure _
    · exact editsPure _
  | inList =>
    dsimp only
    split
    · refine editsBind (textOfEdits s left) fun needle => ?_
      exact editsBind editsGet fun e => editsPure _
    · exact editsBind (editsModify fun e => .issueAt e .authorWarning (by decide) _ _) fun _ =>
        editsPure none
    · exact editsPure none
  | _ =>
    exact editsBind (textOfEdits s left) fun l => editsBind (textOfEdits s right) fun r =>
      editsPure _

theorem toClosingEdits (s : Setting) (depth : Nat) (words : List Word) :
    (toClosing s depth words).Edits := by
  induction words generalizing depth with
  | nil => exact editsPure none
  | cons w ws ih =>
    unfold toClosing
    refine editsBind (isKeywordEdits s "(" w) fun opens => ?_
    split
    · exact editsBind (ih (depth + 1)) fun _ => editsPure _
    · refine editsBind (isKeywordEdits s ")" w) fun closes => ?_
      split
      · cases depth with
        | zero => exact editsPure _
        | succ depth => exact editsBind (ih depth) fun _ => editsPure _
      · exact editsBind (ih depth) fun _ => editsPure _

theorem parenthesesEdits (s : Setting)
    {inside : List Word → ExceptT ConditionError Step Bool}
    (inner : ∀ words, EditsOrFails (inside words)) (fuel : Nat) (words : List Word) :
    EditsOrFails (parentheses s inside fuel words) := by
  induction fuel, words using parentheses.induct with
  | case1 fuel => cases fuel <;> exact tryPure []
  | case2 words some =>
    cases words with
    | nil => exact tryPure []
    | cons w ws => exact tryPure _
  | case3 fuel w ws after rest =>
    unfold parentheses
    refine tryBind (tryLift (isKeywordEdits s "(" w)) fun opens => ?_
    split
    · refine tryBind (tryLift (toClosingEdits s 0 ws)) fun found => ?_
      cases found with
      | none => exact tryThrow _
      | some parts => exact tryBind (inner _) fun value => tryBind (after _) fun _ => tryPure _
    · exact tryBind rest fun _ => tryPure _

theorem unaryEdits (s : Setting) (words : List Word) : (unary s words).Edits := by
  induction words using unary.induct with
  | case1 w operand rest after shifted =>
    unfold unary
    refine editsBind (keywordInEdits s w predicates) fun found => ?_
    cases found with
    | some p => exact editsBind editsGet fun e => editsBind after fun _ => editsPure _
    | none => exact editsBind shifted fun _ => editsPure _
  | case2 words short =>
    unfold unary
    split
    · exact (short _ _ _ rfl).elim
    · exact editsPure _

theorem operatorEdits (s : Setting) (x y z : Word) : Step.Edits (do
    match ← keywordIn s y operators with
    | some op => compare s op x z
    | none => pure none) := by
  refine editsBind (keywordInEdits s y operators) fun found => ?_
  cases found with
  | none => exact editsPure none
  | some op => exact compareEdits s op x z

theorem binaryRoundEdits (s : Setting) (words : List Word) :
    EditsOrFails (binaryRound s words) := by
  induction words using binaryRound.induct with
  | case1 x y z rest after skipped shifted =>
    unfold binaryRound
    refine tryBind (tryLift (isKeywordEdits s "MATCHES" y)) fun second => ?_
    split
    · exact tryBind (matchPatternEdits s x z.value) fun value =>
        tryBind after fun _ => tryPure _
    refine tryBind (tryLift (isKeywordEdits s "MATCHES" x)) fun first => ?_
    split
    · exact tryBind skipped fun _ => tryPure _
    refine tryBind (tryLift (operatorEdits s x y z)) fun value => ?_
    cases value with
    | some value => exact tryBind after fun _ => tryPure _
    | none => exact tryBind shifted fun _ => tryPure _
  | case2 x y =>
    unfold binaryRound
    refine tryBind (tryLift (isKeywordEdits s "MATCHES" x)) fun first => ?_
    split
    · exact tryPure _
    · exact tryPure _
  | case3 words long short =>
    unfold binaryRound
    split
    · exact (long _ _ _ _ rfl).elim
    · exact (short _ _ rfl).elim
    · exact tryPure _

theorem binaryEdits (s : Setting) (fuel : Nat) (words : List Word) :
    EditsOrFails (binary s fuel words) := by
  induction fuel generalizing words with
  | zero => exact tryPure words
  | succ fuel ih =>
    unfold binary
    refine tryBind (binaryRoundEdits s words) fun (rest, reduced) => ?_
    dsimp only
    split
    · exact ih _
    · exact tryPure _

theorem negationsEdits (s : Setting) (words : List Word) : (negations s words).Edits := by
  induction words with
  | nil => exact editsPure []
  | cons w ws ih =>
    unfold negations
    refine editsBind ih fun rest => ?_
    cases rest with
    | nil => exact editsPure _
    | cons operand rest =>
      refine editsBind (isKeywordEdits s "NOT" w) fun negated => ?_
      split
      · exact editsBind (truthEdits s operand) fun _ => editsPure _
      · exact editsPure _

theorem logicalRoundEdits (s : Setting) (words : List Word) :
    (logicalRound s words).Edits := by
  induction words using logicalRound.induct with
  | case1 x y z rest after shifted =>
    unfold logicalRound
    refine editsBind (isKeywordEdits s "AND" y) fun both => ?_
    have reduce (join : Bool → Bool → Bool) (operator : Bool) : Step.Edits (do
        if operator then
          let left ← truth s x
          let right ← truth s z
          let further ← logicalRound s rest
          return (token (join left right) :: further.1, true)
        else
          let further ← logicalRound s (y :: z :: rest)
          return (x :: further.1, further.2)) := by
      split
      · refine editsBind (truthEdits s x) fun left => editsBind (truthEdits s z) fun right => ?_
        exact editsBind after fun _ => editsPure _
      · exact editsBind shifted fun _ => editsPure _
    dsimp only
    split
    · exact editsBind (editsPure true) (reduce and)
    · exact editsBind (isKeywordEdits s "OR" y) (reduce or)
  | case2 words short =>
    unfold logicalRound
    split
    · exact (short _ _ _ _ rfl).elim
    · exact editsPure _

theorem logicalEdits (s : Setting) (fuel : Nat) (words : List Word) :
    (logical s fuel words).Edits := by
  induction fuel generalizing words with
  | zero => exact editsPure words
  | succ fuel ih =>
    unfold logical
    refine editsBind (logicalRoundEdits s words) fun (rest, reduced) => ?_
    dsimp only
    split
    · exact ih _
    · exact editsPure _

theorem evaluateWithinEdits (s : Setting) (fuel : Nat) (words : List Word) :
    EditsOrFails (evaluateWithin s fuel words) := by
  induction fuel generalizing words with
  | zero => exact tryThrow _
  | succ fuel ih =>
    unfold evaluateWithin
    split
    · exact tryPure false
    refine tryBind (parenthesesEdits s ih _ words) fun words => ?_
    refine tryBind (tryLift (unaryEdits s words)) fun words => ?_
    refine tryBind (binaryEdits s _ words) fun words => ?_
    refine tryBind (tryLift (negationsEdits s words)) fun words => ?_
    refine tryBind (tryLift (logicalEdits s _ words)) fun words => ?_
    split
    · exact tryLift (truthEdits s _)
    · exact tryThrow _

theorem evaluateEdits (words : List Word) (trace : Backtrace) :
    (evaluate words trace).Edits :=
  editsBind editsTested fun _ => editsBind editsGet fun _ => evaluateWithinEdits _ _ words

end Condition
end CMakeScript
