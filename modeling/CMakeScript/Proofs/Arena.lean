import CMakeScript.Arena
import Mathlib.Tactic.SplitIfs
/-! What each operation on an arena does to the look-up of nodes. Nothing here is about the values;
`map` forgets parts of them, and edits of the forgotten parts do not show. -/
namespace CMakeScript.Arena

variable {α β : Type}

theorem nodeZero (a : Arena α) : a.node? 0 = none := by
  simp [node?]

theorem nodeIsSome {a : Arena α} {id : Nat} : (a.node? id).isSome ↔ 0 < id ∧ id ≤ a.size := by
  unfold node? size
  split_ifs with zero
  · simp [zero]
  · rw [Option.isSome_iff_exists]
    constructor
    · rintro ⟨node, found⟩
      have bound := (Array.getElem?_eq_some_iff.mp found).1
      omega
    · intro bounds
      exact ⟨_, Array.getElem?_eq_getElem (by omega)⟩

theorem nodeBounds {a : Arena α} {id up : Nat} {value : α} (found : a.node? id = some (up, value)) :
    0 < id ∧ id ≤ a.size :=
  nodeIsSome.mp (by simp [found])

theorem getOfNode {a : Arena α} {id up : Nat} {value : α} (found : a.node? id = some (up, value)) :
    a.get? id = some value := by
  simp [get?, found]

theorem parentOfNode {a : Arena α} {id up : Nat} {value : α}
    (found : a.node? id = some (up, value)) : a.parent id = up := by
  simp [parent, found]

theorem getIffNode {a : Arena α} {id : Nat} {value : α} :
    a.get? id = some value ↔ a.node? id = some (a.parent id, value) := by
  unfold get? parent
  cases h : a.node? id with
  | none => simp
  | some node => obtain ⟨up, v⟩ := node; simp

theorem getBounds {a : Arena α} {id : Nat} {value : α} (found : a.get? id = some value) :
    0 < id ∧ id ≤ a.size :=
  nodeBounds (getIffNode.mp found)

theorem getBeyond {a : Arena α} {id : Nat} (beyond : a.size < id) : a.get? id = none := by
  cases found : a.get? id with
  | none => rfl
  | some value =>
    have := (getBounds found).2
    omega

theorem getZero (a : Arena α) : a.get? 0 = none := by
  simp [get?, nodeZero]

theorem containsIff {a : Arena α} {id : Nat} : a.contains id = true ↔ 0 < id ∧ id ≤ a.size :=
  nodeIsSome

theorem isLastIff {a : Arena α} {id : Nat} : a.isLast id = true ↔ 0 < id ∧ id = a.size := by
  simp [isLast, Nat.pos_iff_ne_zero]

theorem nodeSingle {up id : Nat} {value : α} {node : Nat × α}
    (found : (⟨#[(up, value)]⟩ : Arena α).node? id = some node) : id = 1 ∧ node = (up, value) := by
  have bounds := nodeBounds found
  have : id = 1 := by
    simp [size] at bounds
    omega
  subst this
  exact ⟨rfl, (Option.some.inj found).symm⟩

@[simp] theorem pushName (a : Arena α) (up : Nat) (value : α) :
    (a.push up value).2 = a.size + 1 := by
  simp [push, size]

@[simp] theorem sizePush (a : Arena α) (up : Nat) (value : α) :
    (a.push up value).1.size = a.size + 1 := by
  simp [push, size]

theorem nodePush (a : Arena α) (up : Nat) (value : α) (id : Nat) :
    (a.push up value).1.node? id = if id = a.size + 1 then some (up, value) else a.node? id := by
  unfold push node? size
  simp only [Array.getElem?_push]
  split_ifs <;> first | rfl | omega

theorem nodePushNew (a : Arena α) (up : Nat) (value : α) :
    (a.push up value).1.node? (a.size + 1) = some (up, value) := by
  simp [nodePush]

theorem nodePushOld {a : Arena α} {up : Nat} {value : α} {id : Nat} (old : id ≤ a.size) :
    (a.push up value).1.node? id = a.node? id := by
  rw [nodePush, if_neg (by omega)]

theorem getPush (a : Arena α) (up : Nat) (value : α) (id : Nat) :
    (a.push up value).1.get? id = if id = a.size + 1 then some value else a.get? id := by
  unfold get?
  rw [nodePush]
  split_ifs <;> rfl

@[simp] theorem sizeModify (a : Arena α) (id : Nat) (f : α → α) : (a.modify id f).size = a.size := by
  unfold modify size
  split_ifs <;> simp

theorem nodeModify (a : Arena α) (place : Nat) (f : α → α) (id : Nat) :
    (a.modify place f).node? id =
      if id = place then (a.node? id).map fun n => (n.1, f n.2) else a.node? id := by
  unfold modify node?
  by_cases same : id = place
  · subst same
    rw [if_pos rfl]
    split_ifs
    · rfl
    · rw [Array.getElem?_modify, if_pos rfl]
  · rw [if_neg same]
    split_ifs
    · rfl
    · rfl
    · simp only [Array.getElem?_modify]
      rw [if_neg (by omega)]

theorem getModify (a : Arena α) (place : Nat) (f : α → α) (id : Nat) :
    (a.modify place f).get? id = if id = place then (a.get? id).map f else a.get? id := by
  unfold get?
  rw [nodeModify]
  split_ifs
  · cases a.node? id <;> rfl
  · rfl

theorem modifyPush (a : Arena α) (up : Nat) (value : α) (f : α → α) :
    (a.push up value).1.modify (a.size + 1) f = (a.push up (f value)).1 := by
  unfold push modify size
  rw [if_neg (by omega)]
  congr 1
  apply Array.ext
  · simp
  · intro i h₁ h₂
    simp only [Array.size_modify, Array.size_push] at h₁ h₂
    simp only [Array.getElem_modify, Array.getElem_push]
    split_ifs <;> first | rfl | omega

@[simp] theorem popName (a : Arena α) (id : Nat) : (a.pop id).2 = a.parent id := by
  unfold pop
  split_ifs <;> rfl

theorem sizePop {a : Arena α} {id : Nat} (last : a.isLast id = true) :
    (a.pop id).1.size = a.size - 1 := by
  simp [pop, last, size]

theorem popTop {a : Arena α} {n : Nat} (size : a.size = n + 1) :
    a.isLast (n + 1) = true ∧ (a.pop (n + 1)).1.size = n := by
  have last : a.isLast (n + 1) = true := by
    rw [isLastIff]
    omega
  refine ⟨last, ?_⟩
  rw [sizePop last]
  omega

theorem nodePop {a : Arena α} {last : Nat} (isLast : a.isLast last = true) (id : Nat) :
    (a.pop last).1.node? id = if id = last then none else a.node? id := by
  obtain ⟨positive, rfl⟩ := isLastIff.mp isLast
  unfold pop
  rw [if_pos isLast]
  unfold node? size at *
  simp only [Array.getElem?_pop]
  split_ifs with zero bound same <;> first | rfl | omega | skip
  · exact (Array.getElem?_eq_none (by omega)).symm

theorem nodePopOther (a : Arena α) {dropped id : Nat} (other : id ≠ dropped) :
    (a.pop dropped).1.node? id = a.node? id := by
  cases last : a.isLast dropped with
  | false => simp [pop, last]
  | true => rw [nodePop last, if_neg other]

theorem getPop {a : Arena α} {last : Nat} (isLast : a.isLast last = true) (id : Nat) :
    (a.pop last).1.get? id = if id = last then none else a.get? id := by
  unfold get?
  rw [nodePop isLast]
  split_ifs <;> rfl

def map (f : α → β) (a : Arena α) : Arena β := ⟨a.nodes.map fun node => (node.1, f node.2)⟩

@[simp] theorem sizeMap (f : α → β) (a : Arena α) : (a.map f).size = a.size := by
  simp [map, size]

theorem nodeMap (f : α → β) (a : Arena α) (id : Nat) :
    (a.map f).node? id = (a.node? id).map fun node => (node.1, f node.2) := by
  unfold map node?
  split_ifs
  · rfl
  · simp

theorem getMap (f : α → β) (a : Arena α) (id : Nat) : (a.map f).get? id = (a.get? id).map f := by
  unfold get?
  rw [nodeMap]
  cases a.node? id <;> rfl

@[simp] theorem isLastMap (f : α → β) (a : Arena α) (id : Nat) :
    (a.map f).isLast id = a.isLast id := by
  simp [isLast]

theorem mapPush (f : α → β) (a : Arena α) (up : Nat) (value : α) :
    (a.push up value).1.map f = ((a.map f).push up (f value)).1 := by
  simp [push, map]

theorem mapPop (f : α → β) (a : Arena α) (id : Nat) :
    (a.pop id).1.map f = ((a.map f).pop id).1 := by
  unfold pop
  rw [isLastMap]
  split_ifs
  · simp [map]
  · rfl

theorem mapModifyWith {f : α → β} {g : α → α} {h : β → β} (shown : ∀ v, f (g v) = h (f v))
    (a : Arena α) (id : Nat) : (a.modify id g).map f = (a.map f).modify id h := by
  unfold modify map
  split_ifs
  · rfl
  · congr 1
    apply Array.ext
    · simp
    · intro i h₁ h₂
      simp only [Array.getElem_map, Array.getElem_modify]
      split_ifs <;> simp [shown]

theorem modifySame {f : α → α} (same : ∀ v, f v = v) (a : Arena α) (id : Nat) :
    a.modify id f = a := by
  unfold modify
  split_ifs
  · rfl
  · congr 1
    apply Array.ext
    · simp
    · intro i h₁ h₂
      rw [Array.getElem_modify]
      split_ifs <;> simp [same]

theorem modifyTwice (a : Arena α) (id : Nat) (f g : α → α) :
    (a.modify id f).modify id g = a.modify id (g ∘ f) := by
  unfold modify
  split_ifs
  · rfl
  · congr 1
    apply Array.ext
    · simp
    · intro i h₁ h₂
      simp only [Array.getElem_modify]
      split_ifs <;> rfl

theorem mapModify {f : α → β} {g : α → α} (hidden : ∀ v, f (g v) = f v) (a : Arena α) (id : Nat) :
    (a.modify id g).map f = a.map f :=
  (mapModifyWith (h := fun v => v) hidden a id).trans (modifySame (fun _ => rfl) _ id)

end CMakeScript.Arena
