import CMakeScript.Proofs.DirectoryIsolation
/-! What a scope makes of the names, and what the frame above it makes of them. A value that is
raised shows in both, and when the scope is closed the one around it shows what was raised. -/
namespace CMakeScript

namespace Variables

variable {v : Variables} {frame parent root : Nat} {b : Bindings}

theorem bindingOfNode (falling : v.Falling) (here : v.node? frame = some (parent, b))
    (own : frame ≠ root) (name : String) :
    v.binding? frame root name = b[name]?.or (v.binding? parent root name) := by
  have inside : ((frame, b).1 != root) = true := by simpa using own
  rw [binding?, chain, Arena.ancestorsOfNode falling here, List.takeWhile_cons, if_pos inside,
    List.findSome?_cons]
  cases found : b[name]? <;> simp [found, binding?, chain]

theorem lookupLocal (falling : v.Falling) (here : v.node? frame = some (parent, b))
    (own : frame ≠ root) {name : String} {value : Option String} (bound : b[name]? = some value) :
    v.lookup frame root name = value := by
  rw [lookup, bindingOfNode falling here own, bound]
  rfl

theorem fallingAssign (falling : v.Falling) (place : Nat) (name : String)
    (value : Option String) : (v.assign place name value).Falling :=
  Arena.fallingModify falling ..

theorem nodeAssign (here : v.node? frame = some (parent, b)) (name : String)
    (value : Option String) :
    (v.assign frame name value).node? frame = some (parent, b.insert name value) := by
  rw [assign, Arena.nodeModify, if_pos rfl, here]
  rfl

theorem nodeAssignOther {place : Nat} (different : frame ≠ place) (name : String)
    (value : Option String) : (v.assign place name value).node? frame = v.node? frame := by
  rw [assign, Arena.nodeModify, if_neg different]

theorem lookupAssign (falling : v.Falling) (here : v.node? frame = some (parent, b))
    (own : frame ≠ root) (name other : String) (value : Option String) :
    (v.assign frame name value).lookup frame root other =
      if name = other then value else v.lookup frame root other := by
  split_ifs with same
  · subst same
    exact lookupLocal (fallingAssign falling ..) (nodeAssign here ..) own (by simp)
  · exact lookupKept (fun b => by simp [same]) ..

theorem localizeOther (different : parent ≠ frame) (root : Nat) (name : String) :
    (v.localize frame root name).node? parent = v.node? parent := by
  unfold localize
  split_ifs
  · rfl
  · exact nodeAssignOther different ..

theorem fallingLocalize (falling : v.Falling) (frame root : Nat) (name : String) :
    (v.localize frame root name).Falling := by
  unfold localize
  split_ifs
  · exact falling
  · exact fallingAssign falling ..

theorem lookupLocalize (falling : v.Falling) (here : v.node? frame = some (parent, b))
    (own : frame ≠ root) (name other : String) :
    (v.localize frame root name).lookup frame root other = v.lookup frame root other := by
  unfold localize
  split_ifs
  · rfl
  · rw [lookupAssign falling here own]
    split_ifs with same
    · rw [← same]
      rfl
    · rfl

theorem localizeBinds (here : v.node? frame = some (parent, b)) (root : Nat) (name : String) :
    ∃ b' value, (v.localize frame root name).node? frame = some (parent, b') ∧
      b'[name]? = some value := by
  unfold localize
  split_ifs with bound
  · have member : name ∈ b := by simpa [hasLocal, Arena.getOfNode here] using bound
    exact ⟨b, b[name], here, Std.TreeMap.getElem?_eq_some_getElem member⟩
  · exact ⟨_, (v.binding? frame root name).join, nodeAssign here .., by simp⟩

section Raise

variable (falling : v.Falling) (here : v.node? frame = some (parent, b))

include falling here

theorem lookupRaised (own : frame ≠ root) (name other : String) (value : Option String) :
    ((v.localize frame root name).assign parent name value).lookup frame root other =
      v.lookup frame root other := by
  have above := falling here
  obtain ⟨b', bound, local', binds⟩ := localizeBinds here root name
  have fallingLocal := fallingLocalize falling frame root name
  rw [← lookupLocalize falling here own name other]
  by_cases same : name = other
  · subst same
    have kept : ((v.localize frame root name).assign parent name value).node? frame =
        some (parent, b') := (nodeAssignOther (by omega) ..).trans local'
    rw [lookupLocal (fallingAssign fallingLocal ..) kept own binds,
      lookupLocal fallingLocal local' own binds]
  · exact lookupKept (fun b => by simp [same]) ..

theorem lookupAboveRaised {up : Nat} {outer : Bindings}
    (around : v.node? parent = some (up, outer)) (below : parent ≠ root) (name other : String)
    (value : Option String) :
    ((v.localize frame root name).assign parent name value).lookup parent root other =
      if name = other then value else v.lookup parent root other := by
  have above := falling here
  have fallingLocal := fallingLocalize falling frame root name
  have kept : (v.localize frame root name).node? parent = some (up, outer) :=
    (localizeOther (by omega) ..).trans around
  rw [lookupAssign fallingLocal kept below]
  split_ifs
  · rfl
  · exact lookupAgree falling fallingLocal (fun i bound => localizeOther (by omega) ..) ..

end Raise
end Variables
namespace ScopeTree

variable {t t' : ScopeTree} {own : Bool} {id : Nat}

def Below (t : ScopeTree) (own : Bool) (id : Nat) : Prop :=
  ∃ up p q, t.snapshots.node? id = some (up, p) ∧ t.snapshots.get? up = some q ∧ up < id ∧
    q.rootFrame = p.rootFrame ∧ (if own then p.parentFrame else p.frame) = q.frame

theorem Below.bound (below : t.Below own id) : 0 < id ∧ id ≤ t.snapshots.size := by
  obtain ⟨up, p, q, found, -⟩ := below
  exact Arena.nodeBounds found

theorem Below.agree (below : t.Below own id)
    (same : ∀ i ≤ id, t'.snapshots.node? i = t.snapshots.node? i) : t'.Below own id := by
  obtain ⟨up, p, q, found, above, older, frames⟩ := below
  refine ⟨up, p, q, (same id (Nat.le_refl id)).trans found, ?_, older, frames⟩
  rw [Arena.get?, same up (by omega), ← Arena.get?, above]

theorem Below.enter {origin : Nat} {parent : Snapshot} (below : t.Below own id)
    (kind : SnapshotKind) (keep ownFile ownFrame : Bool) :
    (t.enter origin parent kind keep ownFile ownFrame).Below own id := by
  have bound := below.bound
  exact below.agree fun i older => Arena.nodePushOld (by omega)

theorem belowInner {origin : Nat} {parent : Snapshot}
    (found : t.snapshots.get? origin = some parent) (kind : SnapshotKind)
    (keep ownFile ownFrame : Bool) :
    (t.enter origin parent kind keep ownFile ownFrame).Below ownFrame (t.snapshots.size + 1) := by
  have bound := (Arena.getBounds found).2
  refine ⟨origin, _, parent, Arena.nodePushNew .., getEnterOld found, by omega, rfl, ?_⟩
  cases ownFrame <;> rfl

theorem Below.enterDirectory {origin : Nat} {parent : Snapshot} (below : t.Below own id) :
    (t.enterDirectory origin parent).Below own id := by
  have bound := below.bound
  exact below.agree fun i older => Arena.nodePushOld (by omega)

theorem Below.leave {other up : Nat} {inner outer : Snapshot} (below : t.Below own id)
    (different : id ≠ other) : (t.leave other up inner outer).Below own id := by
  have bound := below.bound
  refine below.agree fun i older => ?_
  rw [nodeLeave]
  split_ifs with dropped
  · obtain ⟨dropped, rfl⟩ := dropped
    have last : t.snapshots.isLast i = true := by
      simpa using (Bool.or_eq_false_iff.mp dropped).2
    have top := (Arena.isLastIff.mp last).2
    omega
  · rfl

end ScopeTree
namespace Scopes

variable {s s' : Scopes} {id : Nat} {here : Snapshot}

def outer? (s : Scopes) (id : Nat) (name : String) : Option String := do
  let here ← s.snapshots.get? id
  s.frames.lookup here.parentFrame here.rootFrame name

theorem outerOf (live : s.snapshots.get? id = some here) (name : String) :
    s.outer? id name = s.frames.lookup here.parentFrame here.rootFrame name := by
  simp [outer?, live]

theorem frameNode (rooted : s.tree.Rooted) (live : s.snapshots.get? id = some here) :
    ∃ b, s.frames.node? here.frame = some (here.parentFrame, b) := by
  have above : s.tree.frames.node? here.frame = some (here.parentFrame, ()) :=
    (rooted.hung (liveTree live)).frameAbove
  rw [tree, Arena.nodeMap] at above
  obtain ⟨⟨up, b⟩, found, same⟩ := Option.map_eq_some_iff.mp above
  cases same
  exact ⟨b, found⟩

theorem frameOfDirectory (sound : s.tree.Sound) (live : s.snapshots.get? id = some here) :
    here.frame ≠ here.rootFrame := by
  have placed : here.rootFrame < here.frame := (sound.placed (liveTree live)).rootFrame
  omega

theorem definitionAssigned (sound : s.tree.Sound) (rooted : s.tree.Rooted)
    (live : s.snapshots.get? id = some here) (name : String) (value : Option String) :
    ({ s with frames := s.frames.assign here.frame name value } : Scopes).definition? id name =
      value := by
  obtain ⟨b, found⟩ := frameNode rooted live
  have falling := Arena.fallingMap.mp rooted.frames
  have still : ({ s with frames := s.frames.assign here.frame name value } :
      Scopes).snapshots.get? id = some here := live
  rw [definitionOf still,
    Variables.lookupAssign falling found (frameOfDirectory sound live), if_pos rfl]

theorem definitionRaise (sound : s.tree.Sound) (rooted : s.tree.Rooted) {name : String}
    {value : Option String} (raised : s.raise? id name value = some s') (other : String) :
    s'.definition? id other = s.definition? id other := by
  have snapshots := snapshotsRaise raised
  obtain ⟨here, live, ⟨top, above, receiver, rfl⟩ | ⟨-, rfl⟩⟩ := raiseCases raised
  · obtain ⟨outer, atAbove, outside⟩ := parentDirectoryCases sound rooted live receiver
    have elsewhere q (found : s.snapshots.get? above = some q) : q.directory ≠ here.directory := by
      cases atAbove.symm.trans found
      rw [outside]
      exact notOwnParent sound rooted live
    cases value with
    | none => exact (sparesUndefine rooted live elsewhere name).definition other
    | some v => exact (sparesDefine rooted live elsewhere name v).definition other
  · obtain ⟨b, found⟩ := frameNode rooted live
    rw [definitionOf live, definitionOf (snapshots.symm ▸ live)]
    exact Variables.lookupRaised (Arena.fallingMap.mp rooted.frames) found
      (frameOfDirectory sound live) ..

theorem innerFrame (sound : s.tree.Sound) (below : s.tree.Below true id) :
    ∃ here, s.snapshots.get? id = some here ∧ here.parentFrame ≠ here.rootFrame := by
  obtain ⟨up, p, q, found, above, -, root, frame⟩ := below
  obtain ⟨here, live, rfl⟩ := Option.map_eq_some_iff.mp
    ((getTree s id).symm.trans (Arena.getOfNode found))
  have bounded : q.rootFrame < q.frame := (sound.placed above).rootFrame
  have inside : here.parentFrame = q.frame := frame
  have same : q.rootFrame = here.rootFrame := root
  exact ⟨here, live, by omega⟩

theorem raiseBelowTop (rooted : s.tree.Rooted) (live : s.snapshots.get? id = some here)
    (inner : here.parentFrame ≠ here.rootFrame) (name : String) (value : Option String) :
    ∃ s', s.raise? id name value = some s' ∧
      ∀ other, s'.outer? id other = if name = other then value else s.outer? id other := by
  have hung := rooted.hung (liveTree live)
  have inside : ¬here.scopeParent = here.directoryParent := fun top => inner (hung.top.mp top)
  have falling := Arena.fallingMap.mp rooted.frames
  obtain ⟨b, found⟩ := frameNode rooted live
  have around : ∃ up outer, s.frames.node? here.parentFrame = some (up, outer) := by
    have older : here.rootFrame ≤ here.parentFrame := hung.rootOlder rooted.frames
    have above := falling found
    have bound := Arena.nodeBounds found
    obtain ⟨⟨up, outer⟩, around⟩ := Option.isSome_iff_exists.mp
      (Arena.nodeIsSome.mpr (show 0 < here.parentFrame ∧ here.parentFrame ≤ s.frames.size by omega))
    exact ⟨up, outer, around⟩
  obtain ⟨up, outer, around⟩ := around
  let frames := s.frames.localize here.frame here.rootFrame name
  let raised : Scopes := { s with frames := frames.assign here.parentFrame name value }
  have still : raised.snapshots.get? id = some here := live
  refine ⟨raised, ?_, fun other => ?_⟩
  · simp only [raise?, live, Option.bind_eq_bind, Option.bind_some, if_neg inside]
    rfl
  · rw [outerOf still, outerOf live]
    exact Variables.lookupAboveRaised falling found around inner ..

theorem raiseInner (sound : s.tree.Sound) (rooted : s.tree.Rooted) (below : s.tree.Below true id)
    (name : String) (value : Option String) : ∃ s', s.raise? id name value = some s' ∧
      ∀ other, s'.outer? id other = if name = other then value else s.outer? id other := by
  obtain ⟨here, live, inner⟩ := innerFrame sound below
  exact raiseBelowTop rooted live inner name value

theorem definitionUndefine (s : Scopes) (place id : Nat) {name other : String}
    (different : name ≠ other) :
    (s.undefine place name).definition? id other = s.definition? id other := by
  unfold undefine
  split
  · exact definitionModify _ _ _ fun b => by simp [different]
  · rfl

theorem definitionPop (sound : s.tree.Sound) (rooted : s.tree.Rooted) {own : Bool} {up : Nat}
    (below : s.tree.Below own id) (popped : s.pop id = .ok (s', up)) (name : String) :
    s'.definition? up name = if own then s.outer? id name else s.definition? id name := by
  obtain ⟨inner, outer, -, found, above, -, tree⟩ := treePop popped
  have sound' : s'.tree.Sound := tree ▸ sound.leave found above
  have rooted' : s'.tree.Rooted := tree ▸ rooted.leave sound found above
  obtain ⟨up', p, q, found', above', older, root, frame⟩ := below
  cases found.symm.trans found'
  cases above.symm.trans above'
  rw [getTree] at above
  obtain ⟨around, live, rfl⟩ := Option.map_eq_some_iff.mp above
  obtain ⟨here, there, rfl⟩ := Option.map_eq_some_iff.mp
    ((getTree s id).symm.trans (Arena.getOfNode found))
  rw [(sparesPop rooted rooted' sound' live (by omega) popped).definition name,
    definitionOf live, show around.rootFrame = here.rootFrame from root]
  cases own
  · rw [← show here.frame = around.frame from frame]
    exact (definitionOf there name).symm
  · rw [← show here.parentFrame = around.frame from frame]
    exact (outerOf there name).symm

end Scopes
end CMakeScript
