import CMakeScript.Proofs.Ancestors
/-! Arenas that nodes are pushed to and dropped from. The name of a dropped node is given out again,
but a parent is always older than its children, so every way upward ends, and a node stays as it is
until it is dropped itself. -/
namespace CMakeScript

variable {α : Type}

inductive ArenaChange (α : Type) where
  | push (parent : Nat) (value : α)
  | pop (id : Nat)

namespace ArenaChange

def apply (a : Arena α) : ArenaChange α → Arena α
  | push parent value => (a.push parent value).1
  | pop id => (a.pop id).1

/-- Nodes are pushed below the root or below a node that is there. Any node can be popped. -/
def Fits (a : Arena α) : ArenaChange α → Prop
  | push parent _ => parent = 0 ∨ a.contains parent = true
  | pop _ => True

def Drops (a : Arena α) (id : Nat) : ArenaChange α → Prop
  | push _ _ => False
  | pop dropped => dropped = id ∧ id = a.size

instance (a : Arena α) (c : ArenaChange α) : Decidable (c.Fits a) := by
  unfold Fits
  cases c <;> infer_instance

instance (a : Arena α) (id : Nat) (c : ArenaChange α) : Decidable (c.Drops a id) := by
  unfold Drops
  cases c <;> infer_instance

end ArenaChange
namespace Arena

inductive Grown : Arena α → Prop where
  | empty : Grown empty
  | change {a : Arena α} (before : Grown a) {c : ArenaChange α} (fits : c.Fits a) :
      Grown (c.apply a)

inductive Spares (id : Nat) (a : Arena α) : Arena α → Prop where
  | none : Spares id a a
  | more {b : Arena α} (before : Spares id a b) {c : ArenaChange α} (spared : ¬c.Drops b id) :
      Spares id a (c.apply b)

/-- The way upward from a node, for as long as there is one further up. -/
inductive Climbs (a : Arena α) : Nat → List (Nat × α) → Prop where
  | ends {id : Nat} (absent : a.node? id = none) : Climbs a id []
  | node {id up : Nat} {value : α} {way : List (Nat × α)}
      (here : a.node? id = some (up, value)) (above : Climbs a up way) :
      Climbs a id ((id, value) :: way)

theorem parentKnown {a : Arena α} {up : Nat} (known : up = 0 ∨ a.contains up = true) :
    up ≤ a.size := by
  obtain rfl | known := known
  · exact Nat.zero_le _
  · exact (containsIff.mp known).2

theorem fallingChange {a : Arena α} (falling : a.Falling) {c : ArenaChange α} (fits : c.Fits a) :
    (c.apply a).Falling := by
  cases c with
  | push parent value => exact fallingPush falling (parentKnown fits) value
  | pop id => exact fallingPop falling id

theorem nodePopAny (a : Arena α) (dropped id : Nat) : (a.pop dropped).1.node? id =
    if id = dropped ∧ dropped = a.size then none else a.node? id := by
  by_cases same : id = dropped
  · subst same
    by_cases positive : id = 0
    · subst positive
      simp [nodeZero]
    · by_cases last : id = a.size
      · rw [nodePop (isLastIff.mpr ⟨by omega, last⟩), if_pos rfl, if_pos ⟨rfl, last⟩]
      · have stays : a.isLast id = false := by
          rw [Bool.eq_false_iff, Ne, isLastIff]
          exact fun both => last both.2
        rw [if_neg fun both => last both.2]
        simp [pop, stays]
  · rw [nodePopOther a same, if_neg fun both => same both.1]

theorem nodeChange {a : Arena α} {id : Nat} (known : a.contains id = true) {c : ArenaChange α}
    (spared : ¬c.Drops a id) : (c.apply a).node? id = a.node? id := by
  cases c with
  | push parent value => exact nodePushOld (containsIff.mp known).2
  | pop dropped =>
    refine (nodePopAny a dropped id).trans (if_neg ?_)
    rintro ⟨rfl, last⟩
    exact spared ⟨rfl, last⟩

theorem Grown.falling {a : Arena α} (grown : a.Grown) : a.Falling := by
  induction grown with
  | empty =>
    intro id up value found
    have bounds := nodeBounds found
    simp only [size, Arena.empty, List.size_toArray, List.length_nil] at bounds
    omega
  | change _ fits ih => exact fallingChange ih fits

theorem Spares.node {a b : Arena α} {id : Nat} (spares : a.Spares id b)
    (known : a.contains id = true) : b.node? id = a.node? id := by
  induction spares with
  | none => rfl
  | @more b _ c spared ih =>
    have still : b.contains id = true := by rwa [contains, ih]
    exact (nodeChange still spared).trans ih

theorem climbsIff {a : Arena α} (falling : a.Falling) {id : Nat} {way : List (Nat × α)} :
    a.Climbs id way ↔ way = a.ancestors id := by
  constructor
  · intro climbs
    induction climbs with
    | ends absent => exact (ancestorsNone absent).symm
    | node here _ ih => rw [ancestorsOfNode falling here, ih]
  · rintro rfl
    induction id using Nat.strongRecOn with
    | ind id ih =>
      cases found : a.node? id with
      | none =>
        rw [ancestorsNone found]
        exact .ends found
      | some node =>
        obtain ⟨up, value⟩ := node
        rw [ancestorsOfNode falling found]
        exact .node found (ih up (falling found))

theorem Climbs.found {a : Arena α} {id : Nat} {way : List (Nat × α)} (climbs : a.Climbs id way) :
    ∀ node ∈ way, a.get? node.1 = some node.2 := by
  induction climbs with
  | ends => nofun
  | node here _ ih => exact List.forall_mem_cons.mpr ⟨getOfNode here, ih⟩

theorem ancestorsFound {a : Arena α} (falling : a.Falling) {id : Nat} :
    ∀ node ∈ a.ancestors id, a.get? node.1 = some node.2 :=
  ((climbsIff falling).mpr rfl).found

theorem ancestorsDescend {a : Arena α} (falling : a.Falling) (id : Nat) :
    (a.ancestors id).Pairwise fun lower upper => upper.1 < lower.1 := by
  induction id using Nat.strongRecOn with
  | ind id ih =>
    cases found : a.node? id with
    | none =>
      rw [ancestorsNone found]
      exact .nil
    | some node =>
      obtain ⟨up, value⟩ := node
      have older := falling found
      rw [ancestorsOfNode falling found]
      refine .cons (fun upper member => ?_) (ih up older)
      exact Nat.lt_of_le_of_lt (ancestorsOlder falling upper member) older

/-- However an arena came about, a parent is the root or an older node that is there. So the way
upward ends, and it visits older and older nodes. Popping gives the parent, and drops the node while
it is the last one; whatever is pushed and popped otherwise leaves a node as it is. -/
theorem parentsStayOlder {a : Arena α} (grown : a.Grown) :
    (∀ {id up value}, a.node? id = some (up, value) →
      up = 0 ∨ up < id ∧ a.contains up = true) ∧
    (∀ id, (∀ way, a.Climbs id way ↔ way = a.ancestors id) ∧
      ((a.ancestors id).Pairwise fun lower upper => upper.1 < lower.1) ∧
      ∀ node ∈ a.ancestors id, a.get? node.1 = some node.2) ∧
    (∀ dropped, (a.pop dropped).2 = a.parent dropped ∧ ∀ id, (a.pop dropped).1.node? id =
      if id = dropped ∧ dropped = a.size then none else a.node? id) ∧
    ∀ {b id}, a.contains id = true → a.Spares id b → b.node? id = a.node? id := by
  have falling := grown.falling
  refine ⟨fun {id up value} found => ?_, fun id => ?_, fun dropped => ?_,
    fun known spares => spares.node known⟩
  · have older := falling found
    have bounds := nodeBounds found
    by_cases root : up = 0
    · exact .inl root
    · exact .inr ⟨older, containsIff.mpr ⟨by omega, by omega⟩⟩
  · exact ⟨fun _ => climbsIff falling, ancestorsDescend falling id, ancestorsFound falling⟩
  · exact ⟨popName a dropped, nodePopAny a dropped⟩

def branches : Arena String := ⟨#[(0, "a"), (1, "b"), (1, "c")]⟩

theorem droppedNameReused : ∃ b : Arena String, branches.Grown ∧ branches.contains 2 = true ∧
    branches.Spares 2 b ∧ b.node? 2 = some (1, "b") ∧ b.node? 3 = some (2, "d") ∧
    branches.Climbs 3 [(3, "c"), (1, "a")] ∧ (branches.pop 2).1.node? 2 = some (1, "b") := by
  have grown : branches.Grown :=
    ((Grown.empty.change (c := .push 0 "a") (by decide)).change (c := .push 1 "b")
      (by decide)).change (c := .push 1 "c") (by decide)
  have unchanged : branches.Spares 2 branches := .none
  have spares := ((unchanged.more (c := .pop 2) (by decide)).more (c := .pop 3) (by decide)).more
    (c := .push 2 "d") (by decide)
  obtain ⟨-, upward, popped, kept⟩ := parentsStayOlder grown
  exact ⟨_, grown, rfl, spares, kept rfl spares, rfl, ((upward 3).1 _).mpr rfl, (popped 2).2 2⟩

end Arena
end CMakeScript
