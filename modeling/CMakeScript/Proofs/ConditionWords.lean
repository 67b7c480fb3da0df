import CMakeScript.Condition.Expression
/-! Words of conditions that are read without looking at the run: unquoted words, and words that are
no keywords. Over such words every round of the reduction is a function of the words. -/
namespace CMakeScript.Condition

def tests : List String := "MATCHES" :: predicates.map Prod.fst ++ operators.map Prod.fst

def keywords : List String := ["(", ")", "NOT", "AND", "OR"] ++ tests

def Settled (w : Word) : Prop := w.quoted = false ∨ w.value ∉ keywords

theorem isKeywordSettled {s : Setting} {w : Word} (settled : Settled w) {keyword : String}
    (member : keyword ∈ keywords) : isKeyword s keyword w = pure (w.value == keyword) := by
  unfold isKeyword
  by_cases same : w.value = keyword
  · have unquoted : w.quoted = false := settled.resolve_right fun other => other (same ▸ member)
    simp [unquoted, same]
  · have different : (w.value == keyword) = false := beq_eq_false_iff_ne.mpr same
    rw [different]
    split
    · rfl
    · simp [same]

theorem keywordInNone {α : Type} {s : Setting} {w : Word} (settled : Settled w)
    (table : List (String × α)) (known : ∀ entry ∈ table, entry.1 ∈ keywords)
    (other : w.value ∉ table.map Prod.fst) : keywordIn s w table = pure none := by
  induction table with
  | nil => rfl
  | cons entry rest ih =>
    obtain ⟨here, later⟩ := List.forall_mem_cons.mp known
    simp only [List.map_cons, List.mem_cons, not_or] at other
    rw [keywordIn, isKeywordSettled settled here, pure_bind]
    simp [other.1, ih later other.2]

def Stands (w : Word) (value : Bool) : Prop :=
  if value then ListValue.isOn w.value = true else ListValue.isOff w.value = true

theorem offNotOn {text : String} (off : ListValue.isOff text = true) :
    ListValue.isOn text = false := by
  refine eq_false_of_ne_true fun on => ?_
  rw [ListValue.isOn, List.contains_iff_mem] at on
  rw [ListValue.isOff] at off
  have occupied : text.isEmpty = false := by
    refine eq_false_of_ne_true fun empty => ?_
    rw [String.isEmpty_iff.mp empty] at on
    revert on
    decide +kernel
  rw [occupied] at off
  revert off
  generalize Text.upper text = word at on
  simp only [List.mem_cons, List.not_mem_nil, or_false] at on
  rcases on with rfl | rfl | rfl | rfl | rfl <;> decide +kernel

theorem keywordsUnknown : ∀ keyword ∈ keywords,
    ListValue.isOn keyword = false ∧ ListValue.isOff keyword = false := by
  decide +kernel

namespace Stands

variable {w : Word} {value : Bool}

theorem other (stands : Stands w value) : w.value ∉ keywords := by
  intro member
  obtain ⟨notOn, notOff⟩ := keywordsUnknown _ member
  cases value <;> simp_all [Stands]

theorem settled (stands : Stands w value) : Settled w := .inr stands.other

theorem truth (stands : Stands w value) (s : Setting) : truth s w = pure value := by
  unfold Condition.truth
  cases value with
  | true =>
    have on : ListValue.isOn w.value = true := stands
    simp [on]
  | false =>
    have off : ListValue.isOff w.value = true := stands
    simp [offNotOn off, off]

theorem token (value : Bool) : Stands (token value) value := by
  cases value with
  | true => exact show ListValue.isOn "1" = true by decide +kernel
  | false => exact show ListValue.isOff "0" = true by decide +kernel

theorem constant (c : Constant) : Stands c.word c.holds := by
  cases c with
  | on text known => exact known
  | off text known => exact known

end Stands

def Free (w : Word) : Prop := Settled w ∧ w.value ∉ tests

theorem Stands.free {w : Word} {value : Bool} (stands : Stands w value) : Free w :=
  ⟨stands.settled, fun member => stands.other (List.mem_append_right _ member)⟩

theorem Connective.free (c : Connective) : Free c.word := by
  cases c with
  | conjunction => exact ⟨.inl rfl, by decide +kernel⟩
  | disjunction => exact ⟨.inl rfl, by decide +kernel⟩

theorem notFree : Free ⟨"NOT", false⟩ := ⟨.inl rfl, by decide +kernel⟩

theorem parenthesesKept (s : Setting) (inside : List Word → ExceptT ConditionError Step Bool)
    (fuel : Nat) {w : Word} (settled : Settled w) (other : w.value ≠ "(") (words : List Word) :
    parentheses s inside (fuel + 1) (w :: words) =
      (w :: ·) <$> parentheses s inside fuel words := by
  rw [parentheses, isKeywordSettled settled (by decide +kernel), beq_eq_false_iff_ne.mpr other]
  simp

theorem negationsKept {s : Setting} {w : Word} (settled : Settled w) (other : w.value ≠ "NOT")
    {words reduced : List Word} (later : negations s words = pure reduced) :
    negations s (w :: words) = pure (w :: reduced) := by
  rw [negations, later, pure_bind]
  cases reduced with
  | nil => rfl
  | cons operand rest =>
    dsimp only
    rw [isKeywordSettled settled (by decide +kernel), beq_eq_false_iff_ne.mpr other]
    rfl

theorem unaryNone (s : Setting) {words : List Word} (free : ∀ w ∈ words, Free w) :
    unary s words = pure words := by
  induction words with
  | nil => rfl
  | cons w words ih =>
    obtain ⟨here, later⟩ := List.forall_mem_cons.mp free
    cases words with
    | nil => rfl
    | cons operand rest =>
      have none : keywordIn s w predicates = pure none :=
        keywordInNone here.1 predicates (by decide +kernel) fun member => here.2 (by
          simp [tests, member])
      rw [unary, none, pure_bind]
      dsimp only
      rw [ih later, pure_bind]

theorem binaryRoundNone (s : Setting) {words : List Word} (free : ∀ w ∈ words, Free w) :
    binaryRound s words = pure (words, false) := by
  have notMatches {w : Word} (here : Free w) : (w.value == "MATCHES") = false :=
    beq_eq_false_iff_ne.mpr fun same => here.2 (by simp [tests, same])
  have matching {w : Word} (here : Free w) : isKeyword s "MATCHES" w = pure false := by
    rw [isKeywordSettled here.1 (by decide +kernel), notMatches here]
  fun_induction binaryRound s words with
  | case1 x y z rest _ _ ih =>
    obtain ⟨first, others⟩ := List.forall_mem_cons.mp free
    have second := (List.forall_mem_cons.mp others).1
    have none : keywordIn s y operators = pure none :=
      keywordInNone second.1 operators (by decide +kernel) fun member => second.2 (by
        simp [tests, member])
    rw [matching second, matching first, none, ih others]
    simp
  | case2 x y =>
    rw [matching (free x List.mem_cons_self)]
    simp
  | case3 => rfl

theorem binaryNone (s : Setting) {words : List Word} (free : ∀ w ∈ words, Free w) (fuel : Nat) :
    binary s fuel words = pure words := by
  cases fuel with
  | zero => rfl
  | succ fuel =>
    rw [binary, binaryRoundNone s free, pure_bind]
    rfl

end CMakeScript.Condition
