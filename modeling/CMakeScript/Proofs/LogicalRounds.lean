import CMakeScript.Proofs.ConditionWords
/-! The last rounds of a condition. A round joins the first two operands, then the next two, and so
on, and keeps the connectives between the pairs. -/
namespace CMakeScript.Condition

def joinPairs : List (Connective × Bool) → List (Connective × Bool)
  | (c, a) :: (d, b) :: rest => (c, d.apply a b) :: joinPairs rest
  | rest => rest

theorem joinPairsLength (rest : List (Connective × Bool)) :
    (joinPairs rest).length ≤ rest.length := by
  fun_induction joinPairs rest with
  | case1 c a d b rest ih =>
    simp only [List.length_cons]
    omega
  | case2 => exact Nat.le_refl _

def inPairs (value : Bool) : List (Connective × Bool) → Bool
  | [] => value
  | (c, operand) :: rest => inPairs (c.apply value operand) (joinPairs rest)
termination_by rest => rest.length
decreasing_by exact Nat.lt_succ_of_le (joinPairsLength rest)

inductive Spelled : List (Connective × Bool) → List Word → Prop where
  | nil : Spelled [] []
  | cons (c : Connective) {w : Word} {value : Bool} {rest : List (Connective × Bool)}
    {words : List Word} (stands : Stands w value) (more : Spelled rest words) :
    Spelled ((c, value) :: rest) (c.word :: w :: words)

theorem Connective.settled (c : Connective) : Settled c.word := c.free.1

theorem logicalRoundJoined (s : Setting) {x z : Word} {a b : Bool} (left : Stands x a)
    (right : Stands z b) (c : Connective) (words : List Word) :
    logicalRound s (x :: c.word :: z :: words) = do
      let (rest, _) ← logicalRound s words
      return (token (c.apply a b) :: rest, true) := by
  rw [logicalRound, isKeywordSettled c.settled (by decide +kernel), pure_bind]
  cases c with
  | conjunction =>
    simp [Connective.word, left.truth s, right.truth s, Connective.apply]
  | disjunction =>
    rw [isKeywordSettled (Connective.settled .disjunction) (by decide +kernel)]
    simp [Connective.word, left.truth s, right.truth s, Connective.apply]

theorem logicalRoundPassed (s : Setting) {y : Word} {b : Bool} (operand : Stands y b) (x z : Word)
    (words : List Word) :
    logicalRound s (x :: y :: z :: words) = do
      let (rest, reduced) ← logicalRound s (y :: z :: words)
      return (x :: rest, reduced) := by
  have keyword {k : String} (member : k ∈ keywords) : isKeyword s k y = pure false := by
    rw [isKeywordSettled operand.settled member]
    congr 1
    exact beq_eq_false_iff_ne.mpr fun same => operand.other (same ▸ member)
  rw [logicalRound, keyword (by decide +kernel), pure_bind, keyword (by decide +kernel)]
  simp

theorem logicalRoundRest (s : Setting) {rest : List (Connective × Bool)} {words : List Word}
    (spelled : Spelled rest words) :
    ∃ words', logicalRound s words = pure (words', decide (2 ≤ rest.length)) ∧
      Spelled (joinPairs rest) words' := by
  fun_induction joinPairs rest generalizing words with
  | case1 c a d b rest ih =>
    obtain _ | ⟨_, first, _ | ⟨_, second, more⟩⟩ := spelled
    obtain ⟨words', round, spelled⟩ := ih more
    refine ⟨_, ?_, .cons c (.token (d.apply a b)) spelled⟩
    rw [logicalRoundPassed s first, logicalRoundJoined s first second, round]
    simp
  | case2 rest single =>
    refine ⟨words, ?_, spelled⟩
    obtain _ | ⟨_, first, _ | _⟩ := spelled
    · rfl
    · rfl
    · exact (single _ _ _ _ _ rfl).elim

theorem logicalSpelled (s : Setting) {w : Word} {value : Bool} {rest : List (Connective × Bool)}
    {words : List Word} (first : Stands w value) (spelled : Spelled rest words) {fuel : Nat}
    (enough : rest.length < fuel) :
    ∃ w', logical s fuel (w :: words) = pure [w'] ∧ Stands w' (inPairs value rest) := by
  induction fuel generalizing w value rest words with
  | zero => cases enough
  | succ fuel ih =>
    rw [logical]
    cases spelled with
    | nil =>
      refine ⟨w, ?_, by simpa [inPairs] using first⟩
      rfl
    | @cons c z operand rest words stands more =>
      obtain ⟨words', round, spelled⟩ := logicalRoundRest s more
      have short := joinPairsLength rest
      have enough : (joinPairs rest).length < fuel := by
        simp only [List.length_cons] at enough
        omega
      obtain ⟨w', done, stands'⟩ := ih (.token (c.apply value operand)) spelled enough
      refine ⟨w', ?_, by rw [inPairs]; exact stands'⟩
      rw [logicalRoundJoined s first stands, round]
      simpa using done

theorem spelledLength {rest : List (Connective × Bool)} {words : List Word}
    (spelled : Spelled rest words) : rest.length ≤ words.length := by
  induction spelled with
  | nil => exact Nat.le_refl _
  | cons _ _ _ ih =>
    simp only [List.length_cons]
    omega

theorem evaluateRounds {s : Setting} {fuel : Nat} {words flat reduced : List Word} {w : Word}
    {value : Bool} {rest : List (Connective × Bool)} (occupied : words ≠ [])
    (inner : parentheses s (evaluateWithin s fuel) words.length words = pure flat)
    (free : ∀ w ∈ flat, Free w) (negated : negations s flat = pure (w :: reduced))
    (first : Stands w value) (spelled : Spelled rest reduced) :
    evaluateWithin s (fuel + 1) words = pure (inPairs value rest) := by
  have enough : rest.length < (w :: reduced).length + 1 := by
    have short := spelledLength spelled
    simp only [List.length_cons]
    omega
  obtain ⟨w', joined, stands⟩ := logicalSpelled s first spelled enough
  rw [List.length_cons] at joined
  rw [evaluateWithin, if_neg (by simpa using occupied), inner]
  simp [unaryNone s free, binaryNone s free, negated, joined, stands.truth s]

theorem evaluatePure {words : List Word} {value : Bool}
    (known : ∀ s, evaluateWithin s (words.length + 1) words = pure value) (e : Engine)
    (trace : Backtrace) : evaluate words trace e = (.ok value, e.logged .tested) := by
  unfold evaluate
  simp only [known]
  rfl

end CMakeScript.Condition
