import CMakeScript.Execution.Start
import CMakeScript.Proofs.LogicalRounds
/-! Chains of constants. The rounds join a chain in pairs, which is the same as joining it from the
left exactly if connectives agree wherever their places in the chain, counted from 1, have the same
number of binary digits. -/
namespace CMakeScript.Condition

theorem parenthesesNone (s : Setting) (inside : List Word → ExceptT ConditionError Step Bool)
    (fuel : Nat) {words : List Word} (other : ∀ w ∈ words, Settled w ∧ w.value ≠ "(") :
    parentheses s inside fuel words = pure words := by
  induction words generalizing fuel with
  | nil => cases fuel <;> rfl
  | cons w words ih =>
    cases fuel with
    | zero => rfl
    | succ fuel =>
      obtain ⟨⟨settled, here⟩, later⟩ := List.forall_mem_cons.mp other
      rw [parenthesesKept s inside fuel settled here, ih fuel later, map_pure]

theorem negationsNone (s : Setting) {words : List Word}
    (other : ∀ w ∈ words, Settled w ∧ w.value ≠ "NOT") : negations s words = pure words := by
  induction words with
  | nil => rfl
  | cons w words ih =>
    obtain ⟨⟨settled, here⟩, later⟩ := List.forall_mem_cons.mp other
    exact negationsKept settled here (ih later)

namespace Chain

def values (chain : Chain) : List (Connective × Bool) :=
  chain.rest.map fun (c, operand) => (c, operand.holds)

def joined (chain : Chain) : Bool := inPairs chain.first.holds chain.values

theorem spelled (rest : List (Connective × Constant)) :
    Spelled (rest.map fun (c, operand) => (c, operand.holds))
      (rest.flatMap fun (c, operand) => [c.word, operand.word]) := by
  induction rest with
  | nil => exact .nil
  | cons entry rest ih => exact .cons entry.1 (.constant entry.2) ih

theorem wordCases (chain : Chain) : ∀ w ∈ chain.words,
    (∃ c : Connective, w = c.word) ∨ ∃ value, Stands w value := by
  intro w member
  rcases List.mem_cons.mp member with rfl | member
  · exact .inr ⟨_, .constant chain.first⟩
  · obtain ⟨⟨c, operand⟩, -, member⟩ := List.mem_flatMap.mp member
    simp only [List.mem_cons, List.not_mem_nil, or_false] at member
    rcases member with rfl | rfl
    · exact .inl ⟨c, rfl⟩
    · exact .inr ⟨_, .constant operand⟩

theorem wordsFree (chain : Chain) : ∀ w ∈ chain.words,
    Free w ∧ w.value ≠ "(" ∧ w.value ≠ "NOT" := by
  intro w member
  rcases chain.wordCases w member with ⟨c, rfl⟩ | ⟨value, stands⟩
  · refine ⟨c.free, ?_⟩
    cases c <;> decide
  · have apart {keyword : String} (reserved : keyword ∈ keywords) : w.value ≠ keyword :=
      fun same => stands.other (same ▸ reserved)
    exact ⟨stands.free, apart (by decide +kernel), apart (by decide +kernel)⟩

theorem evaluates (chain : Chain) (e : Engine) (trace : Backtrace) :
    evaluate chain.words trace e = (.ok chain.joined, e.logged .tested) := by
  refine evaluatePure (fun s => ?_) e trace
  have free := chain.wordsFree
  exact evaluateRounds (List.cons_ne_nil _ _)
    (parenthesesNone s _ _ fun w member => ⟨(free w member).1.1, (free w member).2.1⟩)
    (fun w member => (free w member).1)
    (negationsNone s fun w member => ⟨(free w member).1.1, (free w member).2.2⟩)
    (.constant chain.first) (spelled chain.rest)

end Chain

def fromLeft (value : Bool) (rest : List (Connective × Bool)) : Bool :=
  rest.foldl (fun value (c, operand) => c.apply value operand) value

def PairsAgree : List Connective → Prop
  | c :: d :: rest => c = d ∧ PairsAgree rest
  | _ => True

def everySecond : List Connective → List Connective
  | c :: _ :: rest => c :: everySecond rest
  | rest => rest

theorem joinPairsConnectives (rest : List (Connective × Bool)) :
    (joinPairs rest).map Prod.fst = everySecond (rest.map Prod.fst) := by
  fun_induction joinPairs rest with
  | case1 c a d b rest ih => simp [everySecond, ih]
  | case2 rest single =>
    rcases rest with _ | ⟨_, _ | ⟨_, _⟩⟩
    · rfl
    · rfl
    · exact (single _ _ _ _ _ rfl).elim

theorem everySecondShort (rest : List Connective) : (everySecond rest).length ≤ rest.length := by
  fun_induction everySecond rest with
  | case1 c d rest ih =>
    simp only [List.length_cons]
    omega
  | case2 => exact Nat.le_refl _

theorem everySecondAt (rest : List Connective) (k : Nat) :
    (everySecond rest)[k]? = rest[2 * k]? := by
  fun_induction everySecond rest generalizing k with
  | case1 c d rest ih =>
    cases k with
    | zero => rfl
    | succ k => simpa [Nat.mul_succ] using ih k
  | case2 rest single =>
    match rest, k with
    | [], _ => rfl
    | [_], 0 => rfl
    | [_], k + 1 => simp [Nat.mul_succ]
    | _ :: _ :: _, _ => exact (single _ _ _ rfl).elim

theorem pairsAgreeIff (rest : List Connective) :
    PairsAgree rest ↔ ∀ k, 2 * k + 1 < rest.length → rest[2 * k]? = rest[2 * k + 1]? := by
  fun_induction PairsAgree rest with
  | case1 c d rest ih =>
    rw [ih]
    constructor
    · rintro ⟨same, later⟩ k inside
      cases k with
      | zero => simp [same]
      | succ k =>
        simp only [List.length_cons] at inside
        simpa [Nat.mul_succ] using later k (by omega)
    · intro agree
      refine ⟨by simpa using agree 0, fun k inside => ?_⟩
      simpa [Nat.mul_succ] using agree (k + 1) (by simp only [List.length_cons]; omega)
  | case2 rest single =>
    refine ⟨fun _ k inside => ?_, fun _ => trivial⟩
    match rest with
    | [] | [_] => simp at inside
    | _ :: _ :: _ => exact (single _ _ _ rfl).elim

/-- Connectives agree if their places, counted from 1, have equally many binary digits. -/
def Aligned (connectives : List Connective) : Prop :=
  ∀ j < connectives.length, ∀ i < j, (i + 1).log2 = (j + 1).log2 →
    connectives[i]? = connectives[j]?

instance (connectives) : Decidable (Aligned connectives) := by unfold Aligned; infer_instance

theorem log2Half (n : Nat) : (n + 2).log2 = (n / 2 + 1).log2 + 1 := by
  rw [Nat.log2_def, if_pos (Nat.le_add_left 2 n)]
  congr 2
  omega

theorem log2Double (k : Nat) : (2 * k + 2).log2 = (k + 1).log2 + 1 := by
  rw [log2Half]
  congr 2
  omega

theorem everySecondInside {rest : List Connective} {k : Nat}
    (inside : k < (everySecond rest).length) : 2 * k < rest.length := by
  obtain ⟨inside, -⟩ := List.getElem?_eq_some_iff.mp
    ((everySecondAt rest k).symm.trans (List.getElem?_eq_getElem inside))
  exact inside

theorem everySecondHalf {rest : List Connective} (agree : PairsAgree rest) {k : Nat}
    (inside : k < rest.length) : (everySecond rest)[k / 2]? = rest[k]? := by
  rw [everySecondAt]
  rcases Nat.mod_two_eq_zero_or_one k with even | odd
  · congr 1
    omega
  · have same := (pairsAgreeIff rest).mp agree (k / 2) (by omega)
    rwa [show 2 * (k / 2) + 1 = k by omega] at same

theorem Aligned.pairsAgree {c : Connective} {rest : List Connective}
    (aligned : Aligned (c :: rest)) : PairsAgree rest := by
  refine (pairsAgreeIff rest).mpr fun k inside => ?_
  refine aligned (2 * k + 2) (by rw [List.length_cons]; omega) (2 * k + 1) (by omega) ?_
  rw [log2Half (2 * k), log2Half (2 * k + 1)]
  congr 2
  omega

theorem Aligned.everySecond {c : Connective} {rest : List Connective}
    (aligned : Aligned (c :: rest)) : Aligned (everySecond rest) := by
  intro j inside i before digits
  have inside := everySecondInside inside
  rw [everySecondAt, everySecondAt]
  refine aligned (2 * j + 1) (by rw [List.length_cons]; omega) (2 * i + 1) (by omega) ?_
  rw [log2Double, log2Double, digits]

theorem alignedPairs (c : Connective) {rest : List Connective} (agree : PairsAgree rest)
    (aligned : Aligned (everySecond rest)) : Aligned (c :: rest) := by
  intro j inside i before digits
  obtain ⟨j, rfl⟩ := Nat.exists_eq_succ_of_ne_zero (Nat.ne_of_gt (Nat.zero_lt_of_lt before))
  have inside : j < rest.length := by simpa using inside
  cases i with
  | zero =>
    rw [log2Half] at digits
    cases digits
  | succ i =>
    have paired := everySecondHalf agree inside
    rw [log2Half, log2Half, Nat.add_right_cancel_iff] at digits
    rw [List.getElem?_cons_succ, List.getElem?_cons_succ, ← paired,
      ← everySecondHalf agree (by omega : i < rest.length)]
    rcases Nat.lt_or_ge (i / 2) (j / 2) with less | same
    · obtain ⟨there, -⟩ := List.getElem?_eq_some_iff.mp
        (paired.trans (List.getElem?_eq_getElem inside))
      exact aligned _ there _ less digits
    · congr 1
      omega

theorem alignedCons (c : Connective) (rest : List Connective) :
    Aligned (c :: rest) ↔ PairsAgree rest ∧ Aligned (everySecond rest) :=
  ⟨fun aligned => ⟨aligned.pairsAgree, aligned.everySecond⟩,
    fun ⟨agree, aligned⟩ => alignedPairs c agree aligned⟩

theorem fromLeftJoinPairs {rest : List (Connective × Bool)}
    (agree : PairsAgree (rest.map Prod.fst)) (value : Bool) :
    fromLeft value (joinPairs rest) = fromLeft value rest := by
  fun_induction joinPairs rest generalizing value with
  | case1 c a d b rest ih =>
    obtain ⟨same, agree⟩ := agree
    have regrouped : c.apply value (d.apply a b) = d.apply (c.apply value a) b := by
      obtain rfl : c = d := same
      cases c <;> simp [Connective.apply, Bool.and_assoc, Bool.or_assoc]
    simpa [fromLeft, regrouped] using ih agree _
  | case2 => rfl

theorem inPairsAligned {value : Bool} {rest : List (Connective × Bool)}
    (aligned : Aligned (rest.map Prod.fst)) : inPairs value rest = fromLeft value rest := by
  fun_induction inPairs value rest with
  | case1 => rfl
  | case2 value c operand rest ih =>
    obtain ⟨agree, aligned⟩ := (alignedCons _ _).mp aligned
    rw [← joinPairsConnectives] at aligned
    rw [ih aligned, fromLeftJoinPairs agree]
    rfl

namespace Connective

def absorbing : Connective → Bool
  | conjunction => false
  | disjunction => true

@[simp] theorem applySame (c : Connective) (a : Bool) : c.apply a a = a := by
  cases c <;> simp [apply]

theorem applyEither (c : Connective) (a b : Bool) : c.apply a b = a ∨ c.apply a b = b := by
  cases c <;> cases a <;> simp [apply]

@[simp] theorem applyNeutral (c : Connective) (a : Bool) : c.apply a (!c.absorbing) = a := by
  cases c <;> simp [apply, absorbing]

@[simp] theorem applyAbsorbing (c : Connective) (a : Bool) :
    c.apply a c.absorbing = c.absorbing := by
  cases c <;> simp [apply, absorbing]

theorem absorbingOther {c d : Connective} (different : c ≠ d) : d.absorbing = !c.absorbing := by
  cases c <;> cases d <;> first | rfl | exact absurd rfl different

end Connective

def Holding (value : Bool) (rest : List (Connective × Bool)) : Prop :=
  ∀ entry ∈ rest, entry.2 = value ∨ entry.2 = !entry.1.absorbing

theorem holdingJoinPairs {value : Bool} {rest : List (Connective × Bool)}
    (holding : Holding value rest) : Holding value (joinPairs rest) := by
  fun_induction joinPairs rest with
  | case1 c a d b rest ih =>
    obtain ⟨first, later⟩ := List.forall_mem_cons.mp holding
    obtain ⟨second, later⟩ := List.forall_mem_cons.mp later
    refine List.forall_mem_cons.mpr ⟨?_, ih later⟩
    dsimp only at first second ⊢
    rcases second with rfl | rfl
    · rcases d.applyEither a b with left | right
      · rwa [left]
      · exact .inl right
    · simpa using first
  | case2 => exact holding

theorem inPairsHolding {value : Bool} {rest : List (Connective × Bool)}
    (holding : Holding value rest) : inPairs value rest = value := by
  fun_induction inPairs value rest with
  | case1 => rfl
  | case2 value c operand rest ih =>
    obtain ⟨first, later⟩ := List.forall_mem_cons.mp holding
    have kept : c.apply value operand = value := by
      rcases first with same | same <;> simp only at same <;> simp [same]
    rw [kept] at ih ⊢
    exact ih (holdingJoinPairs later)

theorem fromLeftNeutral (value : Bool) (connectives : List Connective) :
    fromLeft value (connectives.map fun c => (c, !c.absorbing)) = value := by
  induction connectives with
  | nil => rfl
  | cons c rest ih => simpa [fromLeft] using ih

theorem pairsDiffer {connectives : List Connective} (differ : ¬PairsAgree connectives) :
    ∃ value rest, rest.map Prod.fst = connectives ∧ fromLeft value rest = !value ∧
      Holding value (joinPairs rest) := by
  fun_induction PairsAgree connectives with
  | case1 c d rest ih =>
    by_cases same : c = d
    · obtain ⟨value, more, rfl, left, holding⟩ := ih fun agree => differ ⟨same, agree⟩
      refine ⟨value, (c, value) :: (d, value) :: more, rfl, by simpa [fromLeft] using left, ?_⟩
      exact List.forall_mem_cons.mpr ⟨.inl (d.applySame value), holding⟩
    · -- From the left the second connective settles the value, in a pair it does not.
      have turned := Connective.absorbingOther same
      refine ⟨c.absorbing, (c, c.absorbing) :: (d, d.absorbing) ::
        rest.map fun c => (c, !c.absorbing), by simp [Function.comp_def], ?_, ?_⟩
      · have settled := fromLeftNeutral d.absorbing rest
        simp only [fromLeft, List.foldl_cons, Connective.applySame, Connective.applyAbsorbing] at settled ⊢
        rw [settled, turned]
      · have neutral : Holding c.absorbing (rest.map fun c => (c, !c.absorbing)) := by
          intro entry member
          obtain ⟨c', -, rfl⟩ := List.mem_map.mp member
          exact .inr rfl
        refine List.forall_mem_cons.mpr ⟨.inr ?_, holdingJoinPairs neutral⟩
        rw [← turned]
        exact d.applyAbsorbing _
  | case2 => exact absurd trivial differ

theorem pairsOf {connectives : List Connective} {joined : List (Connective × Bool)}
    (second : joined.map Prod.fst = everySecond connectives) :
    ∃ rest, rest.map Prod.fst = connectives ∧ joinPairs rest = joined ∧
      ∀ value, fromLeft value rest = fromLeft value joined := by
  fun_induction everySecond connectives generalizing joined with
  | case1 c d rest ih =>
    obtain ⟨⟨c', operand⟩, joined, rfl, rfl, same⟩ := List.map_eq_cons_iff.mp second
    obtain ⟨more, rfl, rfl, left⟩ := ih same
    refine ⟨(c', operand) :: (d, !d.absorbing) :: more, rfl, by simp [joinPairs], fun value => ?_⟩
    simpa [fromLeft] using left _
  | case2 rest single =>
    refine ⟨joined, second, ?_, fun _ => rfl⟩
    match joined with
    | [] | [_] => rfl
    | _ :: _ :: _ => exact (single _ _ _ second.symm).elim

theorem alignedNeeded {connectives : List Connective} (other : ¬Aligned connectives) :
    ∃ value rest, rest.map Prod.fst = connectives ∧ inPairs value rest ≠ fromLeft value rest := by
  match connectives with
  | [] => exact absurd nofun other
  | c :: rest =>
    rw [alignedCons] at other
    by_cases agree : PairsAgree rest
    · obtain ⟨value, joined, second, different⟩ :=
        alignedNeeded fun aligned => other ⟨agree, aligned⟩
      obtain ⟨more, rfl, rfl, left⟩ := pairsOf second
      refine ⟨value, (c, !c.absorbing) :: more, rfl, ?_⟩
      have kept : fromLeft value ((c, !c.absorbing) :: more) = fromLeft value more := by
        simp [fromLeft]
      rw [kept, left, inPairs, Connective.applyNeutral]
      exact different
    · obtain ⟨value, more, rfl, left, holding⟩ := pairsDiffer agree
      refine ⟨value, (c, value) :: more, rfl, ?_⟩
      rw [inPairs, Connective.applySame, inPairsHolding holding]
      simp only [fromLeft, List.foldl_cons, Connective.applySame] at left ⊢
      rw [left]
      cases value <;> decide
termination_by connectives.length
decreasing_by
  rw [List.length_cons]
  exact Nat.lt_succ_of_le (everySecondShort rest)

namespace Constant

def ofBool : Bool → Constant
  | true => on "1" (by decide +kernel)
  | false => off "0" (by decide +kernel)

@[simp] theorem holdsOfBool (value : Bool) : (ofBool value).holds = value := by
  cases value <;> rfl

end Constant

theorem Chain.leftToRightValues (chain : Chain) :
    chain.leftToRight = fromLeft chain.first.holds chain.values := by
  rw [fromLeft, values, List.foldl_map]
  rfl

theorem Chain.connectivesValues (chain : Chain) :
    chain.values.map Prod.fst = chain.connectives := by
  rw [values, List.map_map]
  rfl

/-- A chain is joined in pairs. That is the same as from the left, whatever the operands are,
exactly for connectives that are aligned. -/
theorem chainsJoinInPairs (e : Engine) (trace : Backtrace) :
    (∀ chain : Chain, evaluate chain.words trace e = (.ok chain.joined, e.logged .tested)) ∧
    ∀ connectives, Aligned connectives ↔ ∀ chain : Chain, chain.connectives = connectives →
      evaluate chain.words trace e = (.ok chain.leftToRight, e.logged .tested) := by
  refine ⟨fun chain => chain.evaluates e trace, fun connectives => ⟨?_, fun fold => ?_⟩⟩
  · rintro aligned chain rfl
    rw [chain.evaluates, chain.leftToRightValues, Chain.joined,
      inPairsAligned (chain.connectivesValues ▸ aligned)]
  · refine Decidable.byContradiction fun other => ?_
    obtain ⟨value, rest, rfl, different⟩ := alignedNeeded other
    let chain : Chain := ⟨.ofBool value, rest.map fun (c, operand) => (c, .ofBool operand)⟩
    have values : chain.values = rest := by simp [chain, Chain.values, Function.comp_def]
    have answer := fold chain (by rw [← chain.connectivesValues, values])
    rw [chain.evaluates, chain.leftToRightValues, Chain.joined, values] at answer
    simp only [chain, Constant.holdsOfBool] at answer
    exact different (Except.ok.inj (Prod.mk.inj answer).1)

theorem fourOperandsInPairs :
    let chain : Chain := ⟨.ofBool false, [(.disjunction, .ofBool false),
      (.conjunction, .ofBool false), (.disjunction, .ofBool true)]⟩
    let e := Engine.start {} {} []
    chain.words.map Word.value = ["0", "OR", "0", "AND", "0", "OR", "1"] ∧
      chain.leftToRight = true ∧ evaluate chain.words {} e = (.ok false, e.logged .tested) := by
  intro chain e
  refine ⟨by decide +kernel, by decide +kernel, ?_⟩
  have settled : chain.joined = false := by
    simp [chain, Chain.joined, Chain.values, inPairs, joinPairs, Connective.apply]
  rw [(chainsJoinInPairs e {}).1 chain, settled]

example : Aligned [.conjunction, .disjunction] ∧
    ¬Aligned [.conjunction, .disjunction, .conjunction] := by
  decide

end CMakeScript.Condition
