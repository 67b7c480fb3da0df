import CMakeScript.Proofs.ScopeLineage
/-! The policy frames that scopes stand on, apart from the settings in them. Of a snapshot the view
keeps its innermost frame and the frame it stops at, of a frame its parent and whether it is weak. -/
namespace CMakeScript

def Snapshot.stand (p : Snapshot) : Nat × Nat := (p.policies, p.policyScope)

structure PolicyView where
  scopes : Arena (Nat × Nat)
  frames : Arena Bool

namespace PolicyView

variable (v : PolicyView)

def enter (origin top : Nat) : PolicyView :=
  { v with scopes := (v.scopes.push origin (top, top)).1 }

def enterDirectory (origin top : Nat) : PolicyView :=
  { scopes := (v.scopes.push origin (v.frames.size + 1, v.frames.size + 1)).1,
    frames := (v.frames.push top false).1 }

def edit (id : Nat) (e : ScopeEdit) : PolicyView :=
  match v.scopes.get? id with
  | none => v
  | some (top, bound) =>
    match e with
    | .pushPolicy _ weak =>
      { scopes := v.scopes.modify id fun (_, bound) => (v.frames.size + 1, bound),
        frames := (v.frames.push top weak).1 }
    | .popPolicy =>
      if top = bound then v
      else
        { scopes := v.scopes.modify id fun (_, bound) => (v.frames.parent top, bound),
          frames := (v.frames.pop top).1 }
    | .markPolicyScope => { v with scopes := v.scopes.modify id fun (top, _) => (top, top) }
    | _ => v

theorem editNone {v : PolicyView} {id : Nat} (absent : v.scopes.get? id = none) (e : ScopeEdit) :
    v.edit id e = v := by
  simp [edit, absent]

end PolicyView

namespace Scopes

def policyView (s : Scopes) : PolicyView :=
  ⟨s.snapshots.map Snapshot.stand, s.policies.map PolicyFrame.weak⟩

theorem getStand (s : Scopes) (id : Nat) :
    s.policyView.scopes.get? id = (s.snapshots.get? id).map Snapshot.stand :=
  Arena.getMap ..

theorem standOf {s : Scopes} {id : Nat} {here : Snapshot}
    (found : s.snapshots.get? id = some here) :
    s.policyView.scopes.get? id = some (here.policies, here.policyScope) := by
  rw [getStand, found]
  rfl

theorem nodeWeak (s : Scopes) (frame : Nat) : s.policyView.frames.node? frame =
    (s.policies.node? frame).map fun node => (node.1, node.2.weak) :=
  Arena.nodeMap ..

@[simp] theorem sizeViewScopes (s : Scopes) : s.policyView.scopes.size = s.snapshots.size :=
  Arena.sizeMap ..

@[simp] theorem sizeViewFrames (s : Scopes) : s.policyView.frames.size = s.policies.size :=
  Arena.sizeMap ..

theorem viewModifySnapshot (s : Scopes) (id : Nat) {f : Snapshot → Snapshot}
    (hidden : ∀ p, (f p).stand = p.stand) : (s.modifySnapshot id f).policyView = s.policyView := by
  simp [policyView, modifySnapshot, Arena.mapModify hidden]

theorem viewStand (s : Scopes) (id : Nat) {f : Snapshot → Snapshot} {h : Nat × Nat → Nat × Nat}
    (shown : ∀ p, (f p).stand = h p.stand) : (s.modifySnapshot id f).policyView =
      { s.policyView with scopes := s.policyView.scopes.modify id h } := by
  simp [policyView, modifySnapshot, Arena.mapModifyWith shown]

@[simp] theorem viewModifyDirectory (s : Scopes) (id : Nat) (f : Directory → Directory) :
    (s.modifyDirectory id f).policyView = s.policyView := rfl

@[simp] theorem viewDefine (s : Scopes) (id : Nat) (name value : String) :
    (s.define id name value).policyView = s.policyView := by
  unfold define
  split <;> rfl

@[simp] theorem viewUndefine (s : Scopes) (id : Nat) (name : String) :
    (s.undefine id name).policyView = s.policyView := by
  unfold undefine
  split <;> rfl

@[simp] theorem viewDefineDefaults (s : Scopes) (id : Nat) :
    (s.defineDefaults id).policyView = s.policyView :=
  defineDefaultsKept viewDefine s id

theorem viewRaise {s s' : Scopes} {id : Nat} {name : String} {value : Option String}
    (raised : s.raise? id name value = some s') : s'.policyView = s.policyView := by
  obtain ⟨frames, rfl⟩ := raiseFrames raised
  rfl

theorem weakWrite (a : PolicyFrames) (frame : Nat) (p : Policy) (status : PolicyStatus) :
    (PolicyFrames.write a frame p status).map PolicyFrame.weak = a.map PolicyFrame.weak := by
  unfold PolicyFrames.write
  induction PolicyFrames.reach (a.ancestors frame) generalizing a with
  | nil => rfl
  | cons id rest ih =>
    rw [List.foldl_cons, ih, Arena.mapModify]
    exact fun _ => rfl

@[simp] theorem viewSetPolicy (s : Scopes) (id : Nat) (p : Policy) (status : PolicyStatus) :
    (s.setPolicy id p status).policyView = s.policyView := by
  unfold setPolicy
  split
  · simp [policyView, weakWrite]
  · rfl

@[simp] theorem viewLogContent (s : Scopes) (id : Nat) (kind : ContentKind) (entries : ContentLog) :
    (s.logContent id kind entries).policyView = s.policyView := by
  unfold logContent
  split
  · split
    · refine (viewModifySnapshot (s.modifyDirectory _ _) id ?_).trans rfl
      intro p
      rfl
    · rfl
  · rfl

@[simp] theorem viewSetListFile (s : Scopes) (id : Nat) (path : String) :
    (s.setListFile id path).policyView = s.policyView := by
  unfold setListFile
  split <;> rfl

@[simp] theorem viewUpdateDirectory (s : Scopes) (id : Nat) (f : Directory → Directory) :
    (s.updateDirectory id f).policyView = s.policyView := by
  unfold updateDirectory
  split <;> rfl

@[simp] theorem viewSetLocations (s : Scopes) (id : Nat) (source binary : String) :
    (s.setLocations id source binary).policyView = s.policyView := by
  simp [setLocations]

theorem viewPushPolicy {s : Scopes} {id : Nat} {here : Snapshot}
    (found : s.snapshots.get? id = some here) (settings : PolicySettings) (weak : Bool) :
    ∃ s', s.pushPolicy id settings weak = .ok s' ∧
      s'.policyView = s.policyView.edit id (.pushPolicy settings weak) := by
  refine ⟨_, by simp only [pushPolicy, snapshot, found, bind, Except.bind]; rfl, ?_⟩
  rw [viewStand (h := fun x => (s.policies.size + 1, x.2))]
  · simp only [PolicyView.edit, standOf found]
    simp [policyView, Arena.mapPush]
  · intro p
    simp [Snapshot.stand]

theorem viewPopPolicy {s : Scopes} {id : Nat} {here : Snapshot}
    (found : s.snapshots.get? id = some here) :
    if here.policies = here.policyScope then s.popPolicy id = .ok none
    else ∃ s', s.popPolicy id = .ok (some s') ∧ s'.policyView = s.policyView.edit id .popPolicy := by
  split
  case isTrue atBoundary => simp [popPolicy, snapshot, found, bind, Except.bind, atBoundary]
  case isFalse inside =>
    refine ⟨_, by simp only [popPolicy, snapshot, found, bind, Except.bind, if_neg inside]; rfl, ?_⟩
    rw [viewStand (h := fun x => (s.policies.parent here.policies, x.2))]
    · simp only [PolicyView.edit, standOf found, if_neg inside]
      simp [policyView, Arena.mapPop, Arena.parentMap]
    · intro p
      simp [Snapshot.stand]

theorem viewMarkPolicyScope {s : Scopes} {id : Nat} {here : Snapshot}
    (found : s.snapshots.get? id = some here) : ∃ s', s.markPolicyScope id = .ok s' ∧
      s'.policyView = s.policyView.edit id .markPolicyScope := by
  refine ⟨_, by simp only [markPolicyScope, snapshot, found, bind, Except.bind]; rfl, ?_⟩
  rw [viewStand (h := fun x => (x.1, x.1))]
  · simp only [PolicyView.edit, standOf found]
  · exact fun _ => rfl

theorem viewCreate {s s' : Scopes} {origin id : Nat} {o : ScopeOpening}
    (created : o.create s origin = .ok (s', id)) : ∃ top bound,
      s.policyView.scopes.get? origin = some (top, bound) ∧ id = s.policyView.scopes.size + 1 ∧
        s'.policyView = s.policyView.enter origin top := by
  rw [ScopeOpening.createNested] at created
  obtain ⟨parent, found, rfl, rfl⟩ := createNestedCases created
  refine ⟨parent.policies, parent.policyScope, standOf found, by simp, ?_⟩
  simp only [innerScopes, policyView, modifyDirectory, PolicyView.enter, PolicyView.mk.injEq,
    and_true]
  exact Arena.mapPush ..

theorem viewCreateDirectory {s s' : Scopes} {origin id : Nat}
    (created : s.createDirectory origin = .ok (s', id)) : ∃ top bound,
      s.policyView.scopes.get? origin = some (top, bound) ∧ id = s.policyView.scopes.size + 1 ∧
        s'.policyView = s.policyView.enterDirectory origin top := by
  obtain ⟨parent, found, rfl, same⟩ := createDirectoryCases created
  refine ⟨parent.policies, parent.policyScope, standOf found, by simp, ?_⟩
  rw [same, viewDefineDefaults]
  simp only [bareDirectory, policyView, PolicyView.enterDirectory, PolicyView.mk.injEq,
    Arena.sizeMap]
  exact ⟨Arena.mapPush .., Arena.mapPush ..⟩

theorem viewPop {s s' : Scopes} {id up : Nat} (popped : s.pop id = .ok (s', up)) :
    s'.policyView = s.policyView ∨ s.policyView.scopes.isLast id = true ∧
      s'.policyView = { s.policyView with scopes := (s.policyView.scopes.pop id).1 } := by
  obtain ⟨inner, outer, d, -, -, -, -, rfl⟩ := popCases popped
  have resumed : (s.resume up outer).policyView = s.policyView := by
    rw [resume, viewModifyDirectory, viewModifySnapshot]
    exact fun _ => rfl
  unfold reclaim
  split
  case isTrue => exact .inl resumed
  case isFalse dropped =>
    have last : (s.resume up outer).policyView.scopes.isLast id = true := by
      simp only [Bool.or_eq_true, not_or] at dropped
      simpa [policyView] using dropped.2
    rw [resumed] at last
    refine .inr ⟨last, ?_⟩
    rw [← resumed]
    simp only [policyView, PolicyView.mk.injEq, and_true]
    exact Arena.mapPop ..

end Scopes

inductive PolicyView.Step (v : PolicyView) : ScopeUse → PolicyView → Prop where
  | still {u : ScopeUse} (quiet : ∀ id e, u ≠ .edit id e) : Step v u v
  | enter {origin top bound : Nat} (o : ScopeOpening)
      (found : v.scopes.get? origin = some (top, bound)) :
      Step v (.enter origin o) (v.enter origin top)
  | enterDirectory {origin top bound : Nat} (found : v.scopes.get? origin = some (top, bound)) :
      Step v (.enterDirectory origin) (v.enterDirectory origin top)
  | leave {id : Nat} (last : v.scopes.isLast id = true) :
      Step v (.leave id) { v with scopes := (v.scopes.pop id).1 }
  | edit (id : Nat) (e : ScopeEdit) : Step v (.edit id e) (v.edit id e)

theorem ScopeEdit.viewApply (s : Scopes) (id : Nat) (e : ScopeEdit) :
    (e.apply s id).policyView = s.policyView.edit id e := by
  cases found : s.snapshots.get? id with
  | none =>
    rw [PolicyView.editNone (by simp [Scopes.getStand, found])]
    cases e with
    | raise name value =>
      rw [apply]
      cases raised : s.raise? id name value with
      | none => rfl
      | some s' => exact Scopes.viewRaise raised
    | pushPolicy | popPolicy | markPolicyScope =>
      simp [apply, Scopes.pushPolicy, Scopes.popPolicy, Scopes.markPolicyScope, Scopes.snapshot,
        found, bind, Except.bind]
    | appendContent kind value =>
      rw [apply, Scopes.appendContent]
      split <;> simp
    | _ => simp [apply, Scopes.setContent, Scopes.clearContent]
  | some here =>
    have shown := Scopes.standOf found
    cases e with
    | pushPolicy settings weak =>
      obtain ⟨s', pushed, view⟩ := Scopes.viewPushPolicy found settings weak
      simp only [apply, pushed, view]
    | popPolicy =>
      have popped := Scopes.viewPopPolicy found
      split at popped
      case isTrue atBoundary => simp [apply, popped, PolicyView.edit, shown, atBoundary]
      case isFalse =>
        obtain ⟨s', popped, view⟩ := popped
        simp only [apply, popped, view]
    | markPolicyScope =>
      obtain ⟨s', marked, view⟩ := Scopes.viewMarkPolicyScope found
      simp only [apply, marked, view]
    | raise name value =>
      simp only [PolicyView.edit, shown, apply]
      cases raised : s.raise? id name value with
      | none => rfl
      | some s' => exact Scopes.viewRaise raised
    | appendContent kind value =>
      simp only [PolicyView.edit, shown, apply, Scopes.appendContent]
      split <;> simp
    | _ => simp [PolicyView.edit, shown, apply, Scopes.setContent, Scopes.clearContent]

theorem ScopeUse.viewApply (s : Scopes) (u : ScopeUse) : s.policyView.Step u (u.apply s).policyView := by
  cases u with
  | enter origin o =>
    rw [apply]
    split
    case h_1 created =>
      obtain ⟨top, bound, found, -, view⟩ := Scopes.viewCreate created
      rw [view]
      exact .enter o found
    case h_2 => exact .still (by simp)
  | enterDirectory origin =>
    rw [apply]
    split
    case h_1 created =>
      obtain ⟨top, bound, found, -, view⟩ := Scopes.viewCreateDirectory created
      rw [view]
      exact .enterDirectory found
    case h_2 => exact .still (by simp)
  | leave id =>
    rw [apply]
    split
    case h_1 popped =>
      obtain view | ⟨last, view⟩ := Scopes.viewPop popped
      · rw [view]
        exact .still (by simp)
      · rw [view]
        exact .leave last
    case h_2 => exact .still (by simp)
  | edit id e =>
    rw [apply, ScopeEdit.viewApply]
    exact .edit id e
  | setListFile id path =>
    rw [apply, Scopes.viewSetListFile]
    exact .still (by simp)
  | setLocations id source binary =>
    rw [apply, Scopes.viewSetLocations]
    exact .still (by simp)
  | describeDirectory id properties targetNames project =>
    rw [apply, Scopes.viewUpdateDirectory]
    exact .still (by simp)

end CMakeScript
