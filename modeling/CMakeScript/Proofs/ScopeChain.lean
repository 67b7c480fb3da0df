import CMakeScript.Proofs.ScopeBrackets
/-! The scopes that are open in a directory, one inside of the other. The innermost one can always
be closed, and the one around it is current again. -/
namespace CMakeScript

namespace ScopeTree

def Leads (t : ScopeTree) (d : Nat) : Nat → List Nat → Prop
  | here, [] => here = 1 ∧ ∃ p, t.snapshots.get? 1 = some p ∧ p.directory = d
  | here, id :: rest => here = id ∧ ∃ up p, t.snapshots.node? id = some (up, p) ∧
      p.directory = d ∧ up < id ∧ t.Leads d up rest

def Stands (t : ScopeTree) (here : Nat) (ids : List Nat) : Prop :=
  ∃ d children, t.directories.get? d = some (here, children) ∧ t.Leads d here ids

variable {t t' : ScopeTree} {d here id : Nat} {ids : List Nat}

theorem Leads.found (leads : t.Leads d here ids) :
    ∃ p, t.snapshots.get? here = some p ∧ p.directory = d := by
  cases ids with
  | nil =>
    obtain ⟨rfl, known⟩ := leads
    exact known
  | cons id rest =>
    obtain ⟨rfl, up, p, known, directory, -⟩ := leads
    exact ⟨p, Arena.getOfNode known, directory⟩

theorem Leads.older (leads : t.Leads d here ids)
    (same : ∀ id ≤ here, t'.snapshots.node? id = t.snapshots.node? id) : t'.Leads d here ids := by
  induction ids generalizing here with
  | nil =>
    obtain ⟨rfl, p, known, directory⟩ := leads
    refine ⟨rfl, p, ?_, directory⟩
    rw [Arena.get?, same 1 (Nat.le_refl 1), ← Arena.get?, known]
  | cons id rest ih =>
    obtain ⟨rfl, up, p, known, directory, below, outer⟩ := leads
    refine ⟨rfl, up, p, ?_, directory, below, ih outer fun id bound => same id (by omega)⟩
    rw [same here (Nat.le_refl here), known]

theorem Leads.bound (leads : t.Leads d here ids) : ∀ id ∈ ids, id ≤ here := by
  induction ids generalizing here with
  | nil => nofun
  | cons next rest ih =>
    obtain ⟨rfl, up, p, -, -, below, outer⟩ := leads
    intro id member
    obtain rfl | inside := List.mem_cons.mp member
    · exact Nat.le_refl id
    · have bound := ih outer id inside
      omega

theorem Stands.descends (stands : t.Stands here (id :: ids)) : ∀ outer ∈ ids, outer < here := by
  obtain ⟨d, children, -, rfl, up, p, -, -, below, leads⟩ := stands
  intro outer member
  have bound := leads.bound outer member
  omega

theorem Stands.found (stands : t.Stands here ids) : ∃ p, t.snapshots.get? here = some p := by
  obtain ⟨d, children, -, leads⟩ := stands
  obtain ⟨p, known, -⟩ := leads.found
  exact ⟨p, known⟩

theorem Stands.enter {parent : Snapshot} (stands : t.Stands here ids)
    (known : t.snapshots.get? here = some parent) (kind : SnapshotKind)
    (keep ownFile ownFrame : Bool) :
    (t.enter here parent kind keep ownFile ownFrame).Stands (t.snapshots.size + 1)
      ((t.snapshots.size + 1) :: ids) := by
  obtain ⟨d, children, current, leads⟩ := stands
  obtain ⟨p, same, directory⟩ := leads.found
  rw [known] at same
  cases same
  have bound := (Arena.getBounds known).2
  refine ⟨d, children, ?_, rfl, here, t.inner here parent kind keep ownFile ownFrame, ?_, directory,
    by omega, leads.older fun id old => ?_⟩
  · rw [ScopeTree.enter, Arena.getModify, if_pos directory.symm, current]
    rfl
  · rw [ScopeTree.enter, Arena.nodePushNew]
  · rw [ScopeTree.enter, Arena.nodePushOld (by omega)]

end ScopeTree

namespace Scopes

variable {s : Scopes} {here id : Nat} {ids : List Nat}

theorem standsInitial : initial.tree.Stands 1 [] := by
  rw [treeInitial]
  exact ⟨1, [], rfl, rfl, basePlace, rfl, rfl⟩

theorem standsCreate (stands : s.tree.Stands here ids) (o : ScopeOpening) :
    ∃ s' id, o.create s here = .ok (s', id) ∧ s'.tree.Stands id (id :: ids) := by
  obtain ⟨p, found⟩ := stands.found
  rw [getTree] at found
  obtain ⟨parent, known, rfl⟩ := Option.map_eq_some_iff.mp found
  have created := createNestedOf known o.kind o.keeps o.file? o.ownFrame
  obtain ⟨parent', same, -, -, tree⟩ := treeCreateNested created
  rw [known] at same
  cases same
  rw [ScopeOpening.createNested]
  refine ⟨_, _, created, ?_⟩
  rw [tree, ← sizeTreeSnapshots]
  exact stands.enter (by rw [getTree, known]; rfl) o.kind o.keeps o.file?.isSome o.ownFrame

theorem standsPop (stands : s.tree.Stands here (id :: ids)) :
    here = id ∧ ∃ s' up, s.pop id = .ok (s', up) ∧ s'.tree.Stands up ids := by
  obtain ⟨d, children, current, rfl, up, p, known, directory, below, outer⟩ := stands
  obtain ⟨q, above, inside⟩ := outer.found
  subst directory
  obtain ⟨s', popped, tree⟩ := popAt known above current
  refine ⟨rfl, s', up, popped, p.directory, children, ?_, ?_⟩
  · rw [tree, ScopeTree.directoryLeave, if_pos inside.symm, current]
    rfl
  · rw [tree]
    refine outer.older fun older bound => ?_
    rw [ScopeTree.nodeLeave, if_neg (by omega)]

end Scopes
end CMakeScript
