import CMakeScript.Execution.Start
import CMakeScript.Proofs.LogicalRounds
/-! Expressions with parentheses and negations. The round of parentheses leaves one word for every
group, the round of negations one word for every operand, and the last rounds join what is left.
An opening parenthesis that is not closed fails the condition wherever it stands. -/
namespace CMakeScript.Condition

def closing : Nat → List Word → Option (List Word × List Word)
  | _, [] => none
  | depth, w :: ws =>
    if w.value = "(" then (closing (depth + 1) ws).map (Prod.map (w :: ·) id)
    else if w.value = ")" then
      match depth with
      | 0 => some ([], ws)
      | depth + 1 => (closing depth ws).map (Prod.map (w :: ·) id)
    else (closing depth ws).map (Prod.map (w :: ·) id)

section

variable {w : Word} (words : List Word) (depth : Nat)

theorem closingOpens (here : w.value = "(") :
    closing depth (w :: words) = (closing (depth + 1) words).map (Prod.map (w :: ·) id) := by
  rw [closing.eq_def]
  exact if_pos here

theorem closingEnds (here : w.value = ")") : closing 0 (w :: words) = some ([], words) := by
  simp [closing, here]

theorem closingCloses (here : w.value = ")") :
    closing (depth + 1) (w :: words) = (closing depth words).map (Prod.map (w :: ·) id) := by
  simp [closing, here]

theorem closingPasses (notOpening : w.value ≠ "(") (notClosing : w.value ≠ ")") :
    closing depth (w :: words) = (closing depth words).map (Prod.map (w :: ·) id) := by
  rw [closing.eq_def]
  exact (if_neg notOpening).trans (if_neg notClosing)

end

theorem toClosingSettled (s : Setting) {words : List Word} (settled : ∀ w ∈ words, Settled w)
    (depth : Nat) : toClosing s depth words = pure (closing depth words) := by
  induction words generalizing depth with
  | nil => rfl
  | cons w words ih =>
    obtain ⟨here, later⟩ := List.forall_mem_cons.mp settled
    have known {keyword : String} (reserved : keyword ∈ keywords) :
        isKeyword s keyword w = pure (w.value == keyword) := isKeywordSettled here reserved
    rw [toClosing.eq_def]
    simp only [known (by decide +kernel : "(" ∈ keywords),
      known (by decide +kernel : ")" ∈ keywords), ih later, pure_bind, beq_iff_eq]
    by_cases opens : w.value = "("
    · rw [if_pos opens, closingOpens _ _ opens]
      rfl
    · rw [if_neg opens]
      by_cases closes : w.value = ")"
      · rw [if_pos closes]
        cases depth with
        | zero => rw [closingEnds _ closes]
        | succ depth =>
          rw [closingCloses _ _ closes]
          rfl
      · rw [if_neg closes, closingPasses _ _ opens closes]
        rfl

def Balanced (words : List Word) : Prop :=
  ∀ depth rest, closing depth (words ++ rest) =
    (closing depth rest).map (Prod.map (words ++ ·) id)

namespace Balanced

theorem word {w : Word} (notOpening : w.value ≠ "(") (notClosing : w.value ≠ ")") :
    Balanced [w] :=
  fun depth rest => closingPasses rest depth notOpening notClosing

theorem append {first second : List Word} (left : Balanced first) (right : Balanced second) :
    Balanced (first ++ second) := by
  intro depth rest
  rw [List.append_assoc, left, right, Option.map_map]
  congr 1
  funext part
  simp [Prod.map]

theorem closes {inner : List Word} (balanced : Balanced inner) (rest : List Word) :
    closing 0 (inner ++ ⟨")", false⟩ :: rest) = some (inner, rest) := by
  rw [balanced, closingEnds _ rfl]
  simp

theorem group {inner : List Word} (balanced : Balanced inner) :
    Balanced (⟨"(", false⟩ :: inner ++ [⟨")", false⟩]) := by
  intro depth rest
  rw [List.append_assoc, List.cons_append, closingOpens _ _ rfl, balanced, List.singleton_append,
    closingCloses _ _ rfl, Option.map_map, Option.map_map]
  congr 1
  funext part
  simp [Prod.map]

end Balanced

theorem Constant.other (c : Constant) {keyword : String} (reserved : keyword ∈ keywords) :
    c.word.value ≠ keyword :=
  fun same => (Stands.constant c).other (same ▸ reserved)

mutual

theorem Operand.balanced : (operand : Operand) → Balanced operand.words
  | .constant c => .word (c.other (by decide +kernel)) (c.other (by decide +kernel))
  | .negation operand => .append (.word (by decide) (by decide)) operand.balanced
  | .group inner => .group inner.balanced

theorem Expression.balanced : (tree : Expression) → Balanced tree.words
  | .single operand => operand.balanced
  | .joined left c right => by
    have connective : Balanced [c.word] := .word (by cases c <;> decide) (by cases c <;> decide)
    exact .append left.balanced (.append connective right.balanced)

end

theorem settledUnquoted {words : List Word} (unquoted : ∀ w ∈ words, w.quoted = false) :
    ∀ w ∈ words, Settled w :=
  fun w member => .inl (unquoted w member)

mutual

theorem Operand.unquoted : (operand : Operand) → ∀ w ∈ operand.words, w.quoted = false
  | .constant c => by cases c <;> simp [Operand.words, Constant.word]
  | .negation operand => List.forall_mem_cons.mpr ⟨rfl, operand.unquoted⟩
  | .group inner => by
    refine List.forall_mem_cons.mpr ⟨rfl, List.forall_mem_append.mpr ⟨inner.unquoted, ?_⟩⟩
    simp

theorem Expression.unquoted : (tree : Expression) → ∀ w ∈ tree.words, w.quoted = false
  | .single operand => operand.unquoted
  | .joined left c right => by
    refine List.forall_mem_append.mpr ⟨left.unquoted, List.forall_mem_cons.mpr ⟨?_, right.unquoted⟩⟩
    cases c <;> rfl

end

def Operand.flat : Operand → List Word
  | .constant c => [c.word]
  | .negation operand => ⟨"NOT", false⟩ :: operand.flat
  | .group inner => [token inner.holds]

def Expression.flat : Expression → List Word
  | .single operand => operand.flat
  | .joined left c right => left.flat ++ c.word :: right.flat

theorem Operand.flatFree : (operand : Operand) → ∀ w ∈ operand.flat, Free w
  | .constant c => by simpa [flat] using (Stands.constant c).free
  | .negation operand => List.forall_mem_cons.mpr ⟨notFree, operand.flatFree⟩
  | .group inner => by simpa [flat] using (Stands.token inner.holds).free

theorem Expression.flatFree : (tree : Expression) → ∀ w ∈ tree.flat, Free w
  | .single operand => operand.flatFree
  | .joined left c right => List.forall_mem_append.mpr
    ⟨left.flatFree, List.forall_mem_cons.mpr ⟨c.free, right.flatFree⟩⟩

theorem Operand.flatShort : (operand : Operand) →
    0 < operand.flat.length ∧ operand.flat.length ≤ operand.words.length
  | .constant c => by simp [flat, words]
  | .negation operand => by
    have short := operand.flatShort
    simp only [flat, words, List.length_cons]
    omega
  | .group inner => by simp [flat, words]

theorem Expression.flatShort (tree : Expression) :
    0 < tree.flat.length ∧ tree.flat.length ≤ tree.words.length := by
  cases tree with
  | single operand => exact operand.flatShort
  | joined left c right =>
    have first := left.flatShort
    have second := right.flatShort
    simp only [flat, words, List.length_append, List.length_cons]
    omega

def Reduces (s : Setting) (inside : List Word → ExceptT ConditionError Step Bool)
    (words flat : List Word) : Prop :=
  ∀ more {rest : List Word}, (∀ w ∈ rest, Settled w) →
    parentheses s inside (more + flat.length) (words ++ rest) =
      (flat ++ ·) <$> parentheses s inside more rest

namespace Reduces

variable {s : Setting} {inside : List Word → ExceptT ConditionError Step Bool}

theorem word {w : Word} (settled : Settled w) (other : w.value ≠ "(") :
    Reduces s inside [w] [w] :=
  fun more rest _ => parenthesesKept s inside more settled other rest

theorem append {first second left right : List Word} (one : Reduces s inside first left)
    (settled : ∀ w ∈ second, Settled w) (two : Reduces s inside second right) :
    Reduces s inside (first ++ second) (left ++ right) := by
  intro more rest later
  have steps : more + (left ++ right).length = more + right.length + left.length := by
    rw [List.length_append]
    omega
  rw [steps, List.append_assoc, one _ (List.forall_mem_append.mpr ⟨settled, later⟩), two _ later]
  simp

theorem group {inner : Expression} (value : inside inner.words = pure inner.holds) :
    Reduces s inside (Operand.group inner).words [token inner.holds] := by
  intro more rest later
  have split : (Operand.group inner).words ++ rest =
      ⟨"(", false⟩ :: (inner.words ++ ⟨")", false⟩ :: rest) := by
    simp [Operand.words]
  have settled : ∀ w ∈ inner.words ++ ⟨")", false⟩ :: rest, Settled w :=
    List.forall_mem_append.mpr ⟨settledUnquoted inner.unquoted,
      List.forall_mem_cons.mpr ⟨.inl rfl, later⟩⟩
  rw [split, List.length_singleton, parentheses,
    isKeywordSettled (.inl rfl) (by decide +kernel), toClosingSettled s settled,
    inner.balanced.closes]
  simp [value]

theorem whole {words flat : List Word} (reduces : Reduces s inside words flat)
    (short : flat.length ≤ words.length) :
    parentheses s inside words.length words = pure flat := by
  have nothing : ∀ w ∈ ([] : List Word), Settled w := nofun
  have round := reduces (words.length - flat.length) nothing
  rw [Nat.sub_add_cancel short, List.append_nil] at round
  rw [round]
  cases words.length - flat.length <;> simp [parentheses]

end Reduces

theorem Operand.negated (s : Setting) : (operand : Operand) → ∀ {rest reduced : List Word},
    negations s rest = pure reduced →
    ∃ w, Stands w operand.holds ∧ negations s (operand.flat ++ rest) = pure (w :: reduced)
  | .constant c, rest, reduced, later =>
    ⟨c.word, .constant c,
      negationsKept (Stands.constant c).settled (c.other (by decide +kernel)) later⟩
  | .negation operand, rest, reduced, later => by
    obtain ⟨w, stands, before⟩ := operand.negated s later
    refine ⟨token (!operand.holds), .token _, ?_⟩
    rw [flat, List.cons_append, negations, before, pure_bind]
    dsimp only
    rw [isKeywordSettled (.inl rfl) (by decide +kernel)]
    simp [stands.truth s]
  | .group inner, rest, reduced, later =>
    ⟨token inner.holds, .token _,
      negationsKept (Stands.token _).settled (by cases inner.holds <;> decide) later⟩

theorem Expression.evaluatesReduced {s : Setting} {fuel : Nat} (tree : Expression)
    (reduces : Reduces s (evaluateWithin s fuel) tree.words tree.flat) :
    evaluateWithin s (fuel + 1) tree.words = pure tree.holds := by
  have short := tree.flatShort
  have occupied : tree.words ≠ [] := List.ne_nil_of_length_pos (by omega)
  have inner := reduces.whole short.2
  have last : negations s [] = pure [] := rfl
  cases tree with
  | single operand =>
    obtain ⟨w, stands, negated⟩ := operand.negated s last
    rw [List.append_nil] at negated
    rw [evaluateRounds occupied inner operand.flatFree negated stands .nil, inPairs]
    rfl
  | joined left c right =>
    obtain ⟨z, second, negated⟩ := right.negated s last
    rw [List.append_nil] at negated
    obtain ⟨x, first, negated⟩ := left.negated s
      (negationsKept c.settled (by cases c <;> decide) negated)
    rw [evaluateRounds occupied inner (flatFree (.joined left c right)) negated first
      (.cons c second .nil), inPairs, joinPairs, inPairs]
    · rfl
    · intro _ _ _ _ _ same
      cases same

mutual

theorem Operand.reduces (s : Setting) : (operand : Operand) → ∀ {fuel : Nat},
    operand.words.length ≤ fuel →
    Reduces s (evaluateWithin s fuel) operand.words operand.flat
  | .constant c, _, _ => .word (Stands.constant c).settled (c.other (by decide +kernel))
  | .negation operand, fuel, enough => by
    rw [Operand.words, List.length_cons] at enough
    exact .append (.word (.inl rfl) (by decide)) (settledUnquoted operand.unquoted)
      (operand.reduces s (Nat.le_of_succ_le enough))
  | .group inner, fuel, enough => by
    simp only [Operand.words, List.length_append, List.length_cons] at enough
    exact .group (inner.evaluates s (by omega))

theorem Expression.evaluates (s : Setting) : (tree : Expression) → ∀ {fuel : Nat},
    tree.words.length < fuel → evaluateWithin s fuel tree.words = pure tree.holds
  | .single operand, fuel + 1, enough =>
    Expression.evaluatesReduced (.single operand) (operand.reduces s (Nat.le_of_lt_succ enough))
  | .joined left c right, fuel + 1, enough => by
    simp only [Expression.words, List.length_append, List.length_cons] at enough
    have settled := settledUnquoted right.unquoted
    refine Expression.evaluatesReduced (.joined left c right) ?_
    exact .append (left.reduces s (by omega)) (List.forall_mem_cons.mpr ⟨c.settled, settled⟩)
      (.append (.word c.settled (by cases c <;> decide)) settled (right.reduces s (by omega)))

end

def Fails {α : Type} (m : ExceptT ConditionError Step α) : Prop :=
  ∀ e : Engine, ∃ error e', m.run.run e = (.error error, e')

namespace Fails

variable {α β : Type} {m : ExceptT ConditionError Step α}
  {next : α → ExceptT ConditionError Step β}

theorem first (fails : Fails m) : Fails (m >>= next) := by
  intro e
  obtain ⟨error, e', run⟩ := fails e
  refine ⟨error, e', ?_⟩
  rw [ExceptT.run_bind, StateT.run_bind, run]
  rfl

theorem later (fails : ∀ a, Fails (next a)) : Fails (m >>= next) := by
  intro e
  match run : m.run.run e with
  | (.error error, e') =>
    refine ⟨error, e', ?_⟩
    rw [ExceptT.run_bind, StateT.run_bind, run]
    rfl
  | (.ok a, e') =>
    obtain ⟨error, e'', failed⟩ := fails a e'
    refine ⟨error, e'', ?_⟩
    rw [ExceptT.run_bind, StateT.run_bind, run]
    exact failed

end Fails

theorem closingOpen {words : List Word} {depth : Nat}
    (stays : ∀ inside, inside <+: words →
      inside.countP (·.value == ")") ≤ inside.countP (·.value == "(") + depth) :
    closing depth words = none := by
  induction words generalizing depth with
  | nil => rfl
  | cons w words ih =>
    have later (inside : List Word) (front : inside <+: words) :=
      stays (w :: inside) (List.cons_prefix_cons.mpr ⟨rfl, front⟩)
    by_cases opens : w.value = "("
    · rw [closingOpens _ _ opens, ih, Option.map_none]
      intro inside front
      have bound := later inside front
      simp [opens] at bound
      omega
    · by_cases closes : w.value = ")"
      · cases depth with
        | zero =>
          have first := later [] List.nil_prefix
          simp [closes] at first
        | succ depth =>
          rw [closingCloses _ _ closes, ih, Option.map_none]
          intro inside front
          have bound := later inside front
          simp [closes] at bound
          omega
      · rw [closingPasses _ _ opens closes, ih, Option.map_none]
        intro inside front
        have bound := later inside front
        simpa [List.countP_cons, opens, closes] using bound

theorem closingSteps {w : Word} {words part rest : List Word} {depth : Nat}
    (closed : closing depth (w :: words) = some (part, rest)) :
    rest = words ∨ ∃ depth' part', closing depth' words = some (part', rest) := by
  have behind {depth' : Nat}
      (closed : (closing depth' words).map (Prod.map (w :: ·) id) = some (part, rest)) :
      rest = words ∨ ∃ depth' part', closing depth' words = some (part', rest) := by
    obtain ⟨_, inner, ⟨⟩⟩ := Option.map_eq_some_iff.mp closed
    exact .inr ⟨depth', _, inner⟩
  by_cases opens : w.value = "("
  · exact behind (closingOpens _ _ opens ▸ closed)
  · by_cases closes : w.value = ")"
    · cases depth with
      | zero =>
        cases (closingEnds _ closes).symm.trans closed
        exact .inl rfl
      | succ depth => exact behind (closingCloses _ _ closes ▸ closed)
    · exact behind (closingPasses _ _ opens closes ▸ closed)

theorem closingRest {words part rest : List Word} {depth : Nat}
    (closed : closing depth words = some (part, rest)) : rest <:+ words := by
  induction words generalizing depth part with
  | nil => cases closed
  | cons w words ih =>
    rcases closingSteps closed with rfl | ⟨_, _, inner⟩
    · exact List.suffix_cons w _
    · exact (ih inner).trans (List.suffix_cons w words)

theorem closingUnclosed {words part rest : List Word} {depth : Nat} (unclosed : Unclosed words)
    (closed : closing depth words = some (part, rest)) : Unclosed rest := by
  obtain ⟨before, after, rfl, stays⟩ := unclosed
  induction before generalizing depth part with
  | nil =>
    have none : closing (depth + 1) after = none :=
      closingOpen fun inside front => Nat.le_add_right_of_le (stays inside front)
    rw [List.nil_append, closingOpens _ _ rfl, none] at closed
    cases closed
  | cons w before ih =>
    rcases closingSteps closed with rfl | ⟨_, _, inner⟩
    · exact ⟨before, after, rfl, stays⟩
    · exact ih inner

theorem Unclosed.tail {w : Word} {words : List Word} (unclosed : Unclosed (w :: words)) :
    Unclosed words ∨ w.value = "(" ∧ closing 0 words = none := by
  obtain ⟨before, after, split, stays⟩ := unclosed
  cases before with
  | nil =>
    cases split
    exact .inr ⟨rfl, closingOpen stays⟩
  | cons first before =>
    cases split
    exact .inl ⟨before, after, rfl, stays⟩

theorem parenthesesFail (s : Setting) (inside : List Word → ExceptT ConditionError Step Bool)
    {fuel : Nat} {words : List Word} (enough : words.length ≤ fuel)
    (settled : ∀ w ∈ words, Settled w) (unclosed : Unclosed words) :
    Fails (parentheses s inside fuel words) := by
  induction fuel generalizing words with
  | zero =>
    obtain rfl := List.eq_nil_of_length_eq_zero (Nat.le_zero.mp enough)
    obtain ⟨before, after, split, -⟩ := unclosed
    cases before <;> cases split
  | succ fuel ih =>
    cases words with
    | nil =>
      obtain ⟨before, after, split, -⟩ := unclosed
      cases before <;> cases split
    | cons w words =>
      obtain ⟨here, later⟩ := List.forall_mem_cons.mp settled
      have shorter : words.length ≤ fuel := Nat.le_of_succ_le_succ enough
      by_cases opens : w.value = "("
      · rw [parentheses, isKeywordSettled here (by decide +kernel), toClosingSettled s later]
        simp only [opens, beq_self_eq_true, liftM_pure, pure_bind, if_true]
        cases closed : closing 0 words with
        | none => exact fun e => ⟨.mismatchedParenthesis, e, rfl⟩
        | some found =>
          obtain ⟨part, rest⟩ := found
          have behind : Unclosed rest := by
            rcases unclosed.tail with unclosed | ⟨-, none⟩
            · exact closingUnclosed unclosed closed
            · cases closed.symm.trans none
          have suffix := closingRest closed
          dsimp only
          -- What is inside may well have a value; it is the words behind it that fail.
          refine .later fun value => .first (ih ?_ ?_ behind)
          · exact Nat.le_trans suffix.length_le shorter
          · exact fun w member => later w (suffix.mem member)
      · rw [parenthesesKept s inside fuel here opens, map_eq_pure_bind]
        rcases unclosed.tail with unclosed | ⟨same, -⟩
        · exact .first (ih shorter later unclosed)
        · exact absurd same opens

theorem evaluateWithinFails (s : Setting) {words : List Word} (settled : ∀ w ∈ words, Settled w)
    (unclosed : Unclosed words) (fuel : Nat) : Fails (evaluateWithin s (fuel + 1) words) := by
  have occupied : words.isEmpty = false := by
    obtain ⟨before, after, rfl, -⟩ := unclosed
    simp
  rw [evaluateWithin, if_neg (by simp [occupied])]
  exact .first (parenthesesFail s _ (Nat.le_refl _) settled unclosed)

/-- A condition that spells a tree has the value of the tree. Unquoted words of which some opening
parenthesis is never closed are no condition. -/
theorem treesEvaluate (e : Engine) (trace : Backtrace) :
    (∀ tree : Expression,
      evaluate tree.words trace e = (.ok tree.holds, e.logged .tested)) ∧
    ∀ words, (∀ w ∈ words, w.quoted = false) → Unclosed words →
      ∃ error e', evaluate words trace e = (.error error, e') := by
  refine ⟨fun tree => ?_, fun words unquoted unclosed => ?_⟩
  · exact evaluatePure (fun s => tree.evaluates s (Nat.lt_succ_self _)) e trace
  · exact evaluateWithinFails _ (settledUnquoted unquoted) unclosed words.length _

theorem nestedTreeHolds :
    let tree : Expression := .joined (.negation (.group (.single (.negation (.constant
      (.on "yes" (by decide +kernel))))))) .conjunction (.group (.joined
        (.constant (.off "X-NOTFOUND" (by decide +kernel))) .disjunction
        (.negation (.constant (.off "" (by decide +kernel))))))
    let open' : List Word := ["(", "(", "1", ")", "AND", "MATCHES"].map (⟨·, false⟩)
    let e := Engine.start {} {} []
    tree.words.map Word.value =
        ["NOT", "(", "NOT", "yes", ")", "AND", "(", "X-NOTFOUND", "OR", "NOT", "", ")"] ∧
      evaluate tree.words {} e = (.ok true, e.logged .tested) ∧
      ∃ error e', evaluate open' {} e = (.error error, e') := by
  intro tree open' e
  have unclosed : Unclosed open' :=
    ⟨[], ["(", "1", ")", "AND", "MATCHES"].map (⟨·, false⟩), rfl, by decide⟩
  exact ⟨rfl, (treesEvaluate e {}).1 tree, (treesEvaluate e {}).2 open' (by decide) unclosed⟩

end CMakeScript.Condition
