import CMakeScript.Proofs.Arena
/-! The way from a node to the root. Where every parent is older than its child the way ends by
itself, and it depends on no younger node. -/
namespace CMakeScript.Arena

variable {α β : Type}

def Falling (a : Arena α) : Prop := ∀ ⦃id up value⦄, a.node? id = some (up, value) → up < id

theorem ancestorsWithinNone {a : Arena α} {id : Nat} (absent : a.node? id = none) (fuel : Nat) :
    a.ancestorsWithin fuel id = [] := by
  cases fuel with
  | zero => rfl
  | succ fuel => simp [ancestorsWithin, absent]

theorem ancestorsWithinEnough {a : Arena α} (falling : a.Falling) {fuel more id : Nat}
    (enough : id ≤ fuel) (enoughMore : id ≤ more) :
    a.ancestorsWithin fuel id = a.ancestorsWithin more id := by
  induction fuel generalizing more id with
  | zero =>
    obtain rfl : id = 0 := by omega
    rw [ancestorsWithinNone (nodeZero a), ancestorsWithinNone (nodeZero a)]
  | succ fuel ih =>
    cases found : a.node? id with
    | none => rw [ancestorsWithinNone found, ancestorsWithinNone found]
    | some node =>
      obtain ⟨up, value⟩ := node
      have older := falling found
      cases more with
      | zero => omega
      | succ more =>
        simp only [ancestorsWithin, found]
        have enoughUp : up ≤ more := by omega
        rw [ih (by omega) enoughUp]

theorem ancestorsSelf {a : Arena α} (falling : a.Falling) (id : Nat) :
    a.ancestors id = a.ancestorsWithin id id := by
  cases found : a.node? id with
  | none => rw [ancestors, ancestorsWithinNone found, ancestorsWithinNone found]
  | some node => exact ancestorsWithinEnough falling (nodeBounds found).2 (Nat.le_refl id)

theorem ancestorsNone {a : Arena α} {id : Nat} (absent : a.node? id = none) : a.ancestors id = [] :=
  ancestorsWithinNone absent _

theorem ancestorsOfNode {a : Arena α} (falling : a.Falling) {id up : Nat} {value : α}
    (found : a.node? id = some (up, value)) : a.ancestors id = (id, value) :: a.ancestors up := by
  have older := falling found
  rw [ancestorsSelf falling, ancestorsSelf falling]
  cases id with
  | zero => omega
  | succ id =>
    simp only [ancestorsWithin, found]
    rw [ancestorsWithinEnough falling (by omega) (Nat.le_refl up)]

theorem ancestorsOlder {a : Arena α} (falling : a.Falling) {id : Nat} :
    ∀ node ∈ a.ancestors id, node.1 ≤ id := by
  induction id using Nat.strongRecOn with
  | ind id ih =>
    intro node member
    cases found : a.node? id with
    | none => simp [ancestorsNone found] at member
    | some here =>
      obtain ⟨up, value⟩ := here
      have older := falling found
      rw [ancestorsOfNode falling found] at member
      rcases List.mem_cons.mp member with rfl | above
      · exact Nat.le_refl id
      · exact Nat.le_trans (ih up older node above) (Nat.le_of_lt older)

theorem ancestorsAgree {a b : Arena α} (fallingA : a.Falling) (fallingB : b.Falling) {id : Nat}
    (agree : ∀ i ≤ id, b.node? i = a.node? i) : b.ancestors id = a.ancestors id := by
  induction id using Nat.strongRecOn with
  | ind id ih =>
    have same := agree id (Nat.le_refl id)
    cases found : a.node? id with
    | none => rw [ancestorsNone found, ancestorsNone (same.trans found)]
    | some node =>
      obtain ⟨up, value⟩ := node
      have older := fallingA found
      rw [ancestorsOfNode fallingA found, ancestorsOfNode fallingB (same.trans found),
        ih up older fun i bound => agree i (by omega)]

theorem ancestorsMap (f : α → β) (a : Arena α) (id : Nat) :
    (a.map f).ancestors id = (a.ancestors id).map fun node => (node.1, f node.2) := by
  unfold ancestors
  rw [sizeMap]
  induction a.size generalizing id with
  | zero => rfl
  | succ fuel ih =>
    simp only [ancestorsWithin, nodeMap]
    cases a.node? id with
    | none => rfl
    | some node => simp [ih]

theorem ancestorsModify (a : Arena α) (place : Nat) (f : α → α) (id : Nat) :
    (a.modify place f).ancestors id =
      (a.ancestors id).map fun node => (node.1, if node.1 = place then f node.2 else node.2) := by
  unfold ancestors
  rw [sizeModify]
  induction a.size generalizing id with
  | zero => rfl
  | succ fuel ih =>
    simp only [ancestorsWithin, nodeModify]
    cases a.node? id with
    | none => simp
    | some node => split_ifs <;> simp [*]

theorem nodePopOld {a : Arena α} {last id : Nat} (kept : id ≤ (a.pop last).1.size) :
    (a.pop last).1.node? id = a.node? id := by
  cases isLast : a.isLast last with
  | false => simp [pop, isLast]
  | true =>
    obtain ⟨positive, top⟩ := isLastIff.mp isLast
    rw [sizePop isLast] at kept
    rw [nodePop isLast, if_neg (by omega)]

theorem fallingPush {a : Arena α} (falling : a.Falling) {up : Nat} (known : up ≤ a.size)
    (value : α) : (a.push up value).1.Falling := by
  intro id above other found
  rw [nodePush] at found
  split_ifs at found with new
  · cases found
    omega
  · exact falling found

theorem fallingPop {a : Arena α} (falling : a.Falling) (id : Nat) : (a.pop id).1.Falling := by
  cases last : a.isLast id with
  | false =>
    have same : (a.pop id).1 = a := by simp [pop, last]
    rw [same]
    exact falling
  | true =>
    intro other up value found
    rw [nodePop last] at found
    split_ifs at found
    exact falling found

theorem fallingModify {a : Arena α} (falling : a.Falling) (place : Nat) (f : α → α) :
    (a.modify place f).Falling := by
  intro id up value found
  rw [nodeModify] at found
  split_ifs at found
  · obtain ⟨node, before, same⟩ := Option.map_eq_some_iff.mp found
    cases same
    exact falling before
  · exact falling found

theorem fallingMap {a : Arena α} {f : α → β} : (a.map f).Falling ↔ a.Falling := by
  constructor
  · intro falling id up value found
    exact falling (by rw [nodeMap, found]; rfl)
  · intro falling id up value found
    rw [nodeMap] at found
    obtain ⟨node, before, same⟩ := Option.map_eq_some_iff.mp found
    cases same
    exact falling before

end CMakeScript.Arena
