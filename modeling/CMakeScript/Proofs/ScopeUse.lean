import CMakeScript.Proofs.ScopeSoundness
/-! Everything that can be done with scopes, requests that are refused included. Whatever it is, the
tree of snapshots stays sound. -/
namespace CMakeScript
namespace Scopes

theorem treeSetCurrent (directories : Arena Directory) (d id : Nat) :
    (directories.modify d fun x => { x with current := id }).map (fun x => (x.current, x.children)) =
      (directories.map fun x => (x.current, x.children)).modify d fun (_, children) =>
        (id, children) :=
  Arena.mapModifyWith (f := fun x : Directory => (x.current, x.children)) (fun _ => rfl) ..

theorem placeInner (s : Scopes) (origin : Nat) (parent : Snapshot) (kind : SnapshotKind)
    (keep : Bool) (file : Option String) (fresh : Bool) :
    (s.innerSnapshot origin parent kind keep file fresh).place =
      s.tree.inner origin parent.place kind keep file.isSome fresh := by
  simp [innerSnapshot, Snapshot.place, ScopeTree.inner, tree]

theorem treeCreateNested {s s' : Scopes} {origin id : Nat} {kind : SnapshotKind} {keep fresh : Bool}
    {file : Option String} (created : s.createNested origin kind keep file fresh = .ok (s', id)) :
    ∃ parent, s.snapshots.get? origin = some parent ∧ id = s.snapshots.size + 1 ∧
      s'.snapshots =
        (s.snapshots.push origin (s.innerSnapshot origin parent kind keep file fresh)).1 ∧
      s'.tree = s.tree.enter origin parent.place kind keep file.isSome fresh := by
  obtain ⟨parent, found, rfl, rfl⟩ := createNestedCases created
  refine ⟨parent, found, rfl, rfl, ?_⟩
  simp only [innerScopes, tree, modifyDirectory, ScopeTree.enter, ScopeTree.mk.injEq]
  refine ⟨?_, ?_, ?_, ?_⟩
  · rw [Arena.mapPush, placeInner]
    rfl
  · cases fresh
    · rfl
    · exact Arena.mapPush ..
  · cases file
    · rfl
    · exact Arena.mapPush ..
  · rw [Arena.sizeMap, show parent.place.directory = parent.directory from rfl]
    exact treeSetCurrent ..

theorem treeResume (s : Scopes) (up : Nat) (outer : Snapshot) : (s.resume up outer).tree =
    { s.tree with
      directories := s.tree.directories.modify outer.directory fun (_, children) =>
        (up, children) } := by
  simp only [resume, tree, modifySnapshot, modifyDirectory, ScopeTree.mk.injEq, true_and]
  constructor
  · rw [Arena.mapModify]
    exact fun _ => rfl
  · exact treeSetCurrent ..

theorem treeReclaim (s : Scopes) (id : Nat) (inner outer : Snapshot) :
    (s.reclaim id inner outer).tree =
      if inner.keep || !s.tree.snapshots.isLast id then s.tree
      else
        { snapshots := (s.tree.snapshots.pop id).1,
          frames := if inner.frame != outer.frame && s.tree.frames.isLast inner.frame then
              (s.tree.frames.pop inner.frame).1
            else s.tree.frames,
          listFiles :=
            if inner.listFile != outer.listFile && s.tree.listFiles.isLast inner.listFile then
              (s.tree.listFiles.pop inner.listFile).1
            else s.tree.listFiles,
          directories := s.tree.directories } := by
  unfold reclaim
  simp only [tree, Arena.isLastMap]
  by_cases stays : (inner.keep || !s.snapshots.isLast id) = true
  · rw [if_pos stays, if_pos stays]
  · rw [if_neg stays, if_neg stays]
    simp only [ScopeTree.mk.injEq, Arena.mapPop, and_true, true_and]
    constructor <;> split <;> simp [Arena.mapPop]

theorem treeClose (s : Scopes) (id up : Nat) (inner outer : Snapshot) :
    ((s.resume up outer).reclaim id inner outer).tree =
      s.tree.leave id up inner.place outer.place := by
  rw [treeReclaim, treeResume]
  rfl

theorem treePop {s s' : Scopes} {id up : Nat} (popped : s.pop id = .ok (s', up)) :
    ∃ inner outer children, s.tree.snapshots.node? id = some (up, inner) ∧
      s.tree.snapshots.get? up = some outer ∧
      s.tree.directories.get? inner.directory = some (id, children) ∧
      s'.tree = s.tree.leave id up inner outer := by
  obtain ⟨inner, outer, d, here, there, current, above, rfl⟩ := popCases popped
  refine ⟨inner.place, outer.place, d.children, ?_, liveTree above, ?_, treeClose ..⟩
  · simp [nodeTree, here]
  · simp [directoryTree, Snapshot.place, there, current]

theorem popAt {s : Scopes} {id up : Nat} {inner outer : Snapshot} {children : List Nat}
    (here : s.tree.snapshots.node? id = some (up, inner))
    (above : s.tree.snapshots.get? up = some outer)
    (current : s.tree.directories.get? inner.directory = some (id, children)) :
    ∃ s', s.pop id = .ok (s', up) ∧ s'.tree = s.tree.leave id up inner outer := by
  rw [nodeTree] at here
  rw [getTree] at above
  rw [directoryTree] at current
  obtain ⟨⟨_, p⟩, hereP, same⟩ := Option.map_eq_some_iff.mp here
  cases same
  obtain ⟨q, aboveQ, rfl⟩ := Option.map_eq_some_iff.mp above
  obtain ⟨d, there, same⟩ := Option.map_eq_some_iff.mp current
  cases same
  exact ⟨_, popOf hereP there rfl aboveQ, treeClose ..⟩

theorem identityPop {s s' : Scopes} {id up other : Nat} (popped : s.pop id = .ok (s', up))
    (different : other ≠ id) :
    (s'.snapshots.get? other).map Snapshot.identity =
      (s.snapshots.get? other).map Snapshot.identity := by
  obtain ⟨inner, outer, d, -, -, -, -, rfl⟩ := popCases popped
  have resumed : ((s.resume up outer).snapshots.get? other).map Snapshot.identity =
      (s.snapshots.get? other).map Snapshot.identity := by
    rw [← Arena.getMap, ← Arena.getMap, resume, modifyDirectory, modifySnapshot, Arena.mapModify]
    exact fun _ => rfl
  rw [← resumed]
  unfold reclaim
  by_cases stays : (inner.keep || !(s.resume up outer).snapshots.isLast id) = true
  · rw [if_pos stays]
  · have last : (s.resume up outer).snapshots.isLast id = true := by
      simp only [Bool.or_eq_true, not_or] at stays
      simpa using stays.2
    rw [if_neg stays]
    simp only [Arena.getPop last, if_neg different]

@[simp] theorem treeDefineDefaults (s : Scopes) (id : Nat) : (s.defineDefaults id).tree = s.tree :=
  defineDefaultsKept treeDefine s id

theorem treeCreateDirectory {s s' : Scopes} {origin id : Nat}
    (created : s.createDirectory origin = .ok (s', id)) :
    ∃ parent, s.snapshots.get? origin = some parent ∧ id = s.snapshots.size + 1 ∧
      s'.tree = s.tree.enterDirectory origin parent.place := by
  obtain ⟨parent, found, rfl, same⟩ := createDirectoryCases created
  refine ⟨parent, found, rfl, ?_⟩
  rw [same, treeDefineDefaults]
  simp only [bareDirectory, tree, ScopeTree.enterDirectory, ScopeTree.mk.injEq]
  refine ⟨?_, ?_, ?_, ?_⟩
  · rw [Arena.mapPush]
    simp [directorySnapshot, ScopeTree.directoryPlace, Snapshot.place]
  · rw [Arena.mapPush]
    rfl
  · rw [Arena.mapPush]
    rfl
  · have children := Arena.mapModifyWith (f := fun x : Directory => (x.current, x.children))
      (g := fun x => { x with children := x.children ++ [s.snapshots.size + 1] })
      (h := fun (current, children) => (current, children ++ [s.snapshots.size + 1]))
      fun _ => rfl
    rw [children, Arena.mapPush, Arena.sizeMap]
    rfl

def initial : Scopes := (({} : Scopes).createBase).1

def basePlace : Snapshot :=
  { kind := .base, keep := true, scopeParent := 0, directoryParent := 0, directory := 1,
    listFile := 1, frame := 1, parentFrame := 0, rootFrame := 0, policies := 0, policyRoot := 0,
    policyScope := 0 }

theorem treeInitial : initial.tree =
    ⟨⟨#[(0, basePlace)]⟩, ⟨#[(0, ())]⟩, ⟨#[(0, ())]⟩, ⟨#[(0, (1, []))]⟩⟩ := by
  rw [initial, createBase, treeDefineDefaults]
  simp [tree, modifyDirectory, Arena.push, Arena.map, Arena.modify, Arena.empty, basePlace,
    Variables.pushFrame, Snapshot.place]

theorem soundInitial : initial.tree.Sound := by
  rw [treeInitial]
  constructor
  case base => exact ⟨basePlace, rfl, rfl⟩
  case above =>
    intro id up p h
    obtain ⟨rfl, h⟩ := Arena.nodeSingle h
    cases h
    decide
  case placed =>
    intro id p h
    obtain ⟨rfl, h⟩ := Arena.nodeSingle (Arena.getIffNode.mp h)
    cases h
    constructor <;> decide
  case nested =>
    intro id up p h passing
    obtain ⟨rfl, h⟩ := Arena.nodeSingle h
    cases h
    cases passing
  case current =>
    intro d id children h
    obtain ⟨rfl, h⟩ := Arena.nodeSingle (Arena.getIffNode.mp h)
    cases h
    exact ⟨basePlace, rfl, rfl⟩
  case children =>
    intro d id children h child member
    obtain ⟨rfl, h⟩ := Arena.nodeSingle (Arena.getIffNode.mp h)
    cases h
    cases member
  all_goals
    intro id up p q h passing
    obtain ⟨rfl, h⟩ := Arena.nodeSingle h
    cases h
    cases passing

@[simp] theorem snapshotsDefine (s : Scopes) (id : Nat) (name value : String) :
    (s.define id name value).snapshots = s.snapshots := by
  unfold define
  split <;> rfl

@[simp] theorem snapshotsUndefine (s : Scopes) (id : Nat) (name : String) :
    (s.undefine id name).snapshots = s.snapshots := by
  unfold undefine
  split <;> rfl

theorem snapshotsRaise {s s' : Scopes} {id : Nat} {name : String} {value : Option String}
    (raised : s.raise? id name value = some s') : s'.snapshots = s.snapshots := by
  obtain ⟨frames, rfl⟩ := raiseFrames raised
  rfl

theorem nodeModifySnapshot {s : Scopes} {id other : Nat} {f : Snapshot → Snapshot}
    (different : other ≠ id) : (s.modifySnapshot id f).snapshots.get? other =
      s.snapshots.get? other := by
  rw [modifySnapshot, Arena.getModify, if_neg different]

theorem getLogContent {s : Scopes} {id other : Nat} {kind : ContentKind} {entries : ContentLog}
    (different : other ≠ id) :
    (s.logContent id kind entries).snapshots.get? other = s.snapshots.get? other := by
  unfold logContent
  split
  · split
    · exact nodeModifySnapshot different
    · rfl
  · rfl

end Scopes

inductive ScopeEdit where
  | define (name value : String)
  | undefine (name : String)
  | raise (name : String) (value : Option String)
  | setPolicy (p : Policy) (status : PolicyStatus)
  | pushPolicy (settings : PolicySettings) (weak : Bool)
  | popPolicy
  | markPolicyScope
  | appendContent (kind : ContentKind) (value : String)
  | setContent (kind : ContentKind) (value : String)
  | clearContent (kind : ContentKind)

namespace ScopeEdit

def movesFrames : ScopeEdit → Bool
  | pushPolicy _ _ | popPolicy | markPolicyScope => true
  | _ => false

def apply (s : Scopes) (id : Nat) : ScopeEdit → Scopes
  | define name value => s.define id name value
  | undefine name => s.undefine id name
  | raise name value => (s.raise? id name value).getD s
  | setPolicy p status => s.setPolicy id p status
  | pushPolicy settings weak =>
    match s.pushPolicy id settings weak with
    | .ok s' => s'
    | .error _ => s
  | popPolicy =>
    match s.popPolicy id with
    | .ok (some s') => s'
    | _ => s
  | markPolicyScope =>
    match s.markPolicyScope id with
    | .ok s' => s'
    | .error _ => s
  | appendContent kind value => s.appendContent id kind value
  | setContent kind value => s.setContent id kind value
  | clearContent kind => s.clearContent id kind

@[simp] theorem treeApply (e : ScopeEdit) (s : Scopes) (id : Nat) : (e.apply s id).tree = s.tree := by
  cases e with
  | define => exact Scopes.treeDefine ..
  | undefine => exact Scopes.treeUndefine ..
  | raise name value =>
    rw [apply]
    cases raised : s.raise? id name value with
    | none => rfl
    | some s' => exact Scopes.treeRaise raised
  | setPolicy => exact Scopes.treeSetPolicy ..
  | pushPolicy settings weak =>
    rw [apply]
    split
    case h_1 pushed => exact Scopes.treePushPolicy pushed
    case h_2 => rfl
  | popPolicy =>
    rw [apply]
    split
    case h_1 popped => exact Scopes.treePopPolicy popped
    case h_2 => rfl
  | markPolicyScope =>
    rw [apply]
    split
    case h_1 marked => exact Scopes.treeMarkPolicyScope marked
    case h_2 => rfl
  | appendContent kind value =>
    rw [apply, Scopes.appendContent]
    split
    · rfl
    · exact Scopes.treeLogContent ..
  | setContent => exact Scopes.treeLogContent ..
  | clearContent => exact Scopes.treeLogContent ..

theorem getApplyOther {e : ScopeEdit} {s : Scopes} {id other : Nat} (different : other ≠ id) :
    (e.apply s id).snapshots.get? other = s.snapshots.get? other := by
  cases e with
  | define => simp [apply]
  | undefine => simp [apply]
  | raise name value =>
    rw [apply]
    cases raised : s.raise? id name value with
    | none => rfl
    | some s' => rw [Option.getD_some, Scopes.snapshotsRaise raised]
  | setPolicy p status =>
    rw [apply, Scopes.setPolicy]
    split <;> rfl
  | pushPolicy settings weak =>
    rw [apply]
    split
    case h_1 pushed =>
      obtain ⟨here, -, rfl⟩ := Scopes.pushPolicyCases pushed
      exact Scopes.nodeModifySnapshot different
    case h_2 => rfl
  | popPolicy =>
    rw [apply]
    split
    case h_1 popped =>
      obtain ⟨here, -, -, rfl⟩ := Scopes.popPolicyCases popped
      exact Scopes.nodeModifySnapshot different
    case h_2 => rfl
  | markPolicyScope =>
    rw [apply]
    split
    case h_1 marked =>
      rw [Scopes.markPolicyScopeCases marked]
      exact Scopes.nodeModifySnapshot different
    case h_2 => rfl
  | appendContent kind value =>
    rw [apply, Scopes.appendContent]
    split
    · rfl
    · exact Scopes.getLogContent different
  | setContent => exact Scopes.getLogContent different
  | clearContent => exact Scopes.getLogContent different

end ScopeEdit

inductive ScopeOpening where
  | functionCall (file : String)
  | macroCall (file : String)
  | includeFile (file : String)
  | inlineFile (file : String)
  | deferCall (file : String)
  | variableScope
  | policyScope

namespace ScopeOpening

def create (o : ScopeOpening) (s : Scopes) (origin : Nat) : Except ScopeError (Scopes × Nat) :=
  match o with
  | functionCall file => s.createFunctionCall origin file
  | macroCall file => s.createMacroCall origin file
  | includeFile file => s.createIncludeFile origin file
  | inlineFile file => s.createInlineFile origin file
  | deferCall file => s.createDeferCall origin file
  | variableScope => s.createVariableScope origin
  | policyScope => s.createPolicyScope origin

def keeps : ScopeOpening → Bool
  | includeFile _ | inlineFile _ => true
  | _ => false

def kind : ScopeOpening → SnapshotKind
  | functionCall _ => .functionCall
  | macroCall _ => .macroCall
  | includeFile _ => .includeFile
  | inlineFile _ => .inlineFile
  | deferCall _ => .deferCall
  | variableScope => .variableScope
  | policyScope => .policyScope

def file? : ScopeOpening → Option String
  | functionCall file | macroCall file | includeFile file | inlineFile file | deferCall file =>
    some file
  | variableScope | policyScope => none

def ownFrame : ScopeOpening → Bool
  | functionCall _ | variableScope => true
  | _ => false

theorem createNested (o : ScopeOpening) (s : Scopes) (origin : Nat) :
    o.create s origin = s.createNested origin o.kind o.keeps o.file? o.ownFrame := by
  cases o <;> rfl

end ScopeOpening

inductive ScopeUse where
  | enter (origin : Nat) (o : ScopeOpening)
  | enterDirectory (origin : Nat)
  | leave (id : Nat)
  | edit (id : Nat) (e : ScopeEdit)
  | setListFile (id : Nat) (path : String)
  | setLocations (id : Nat) (source binary : String)
  | describeDirectory (id : Nat) (properties : Properties) (targetNames : List String)
      (project : String)

namespace ScopeUse

def apply (s : Scopes) : ScopeUse → Scopes
  | enter origin o =>
    match o.create s origin with
    | .ok (s', _) => s'
    | .error _ => s
  | enterDirectory origin =>
    match s.createDirectory origin with
    | .ok (s', _) => s'
    | .error _ => s
  | leave id =>
    match s.pop id with
    | .ok (s', _) => s'
    | .error _ => s
  | edit id e => e.apply s id
  | setListFile id path => s.setListFile id path
  | setLocations id source binary => s.setLocations id source binary
  | describeDirectory id properties targetNames project =>
    s.updateDirectory id fun d => { d with properties, targetNames, project }

end ScopeUse

inductive ScopeTree.Step (t : ScopeTree) : ScopeUse → ScopeTree → Prop where
  | still {u : ScopeUse} : Step t u t
  | enter {origin : Nat} {parent : Snapshot} (o : ScopeOpening)
      (found : t.snapshots.get? origin = some parent) :
      Step t (.enter origin o)
        (t.enter origin parent o.kind o.keeps o.file?.isSome o.ownFrame)
  | enterDirectory {origin : Nat} {parent : Snapshot}
      (found : t.snapshots.get? origin = some parent) :
      Step t (.enterDirectory origin) (t.enterDirectory origin parent)
  | leave {id up : Nat} {inner outer : Snapshot} {children : List Nat}
      (here : t.snapshots.node? id = some (up, inner))
      (above : t.snapshots.get? up = some outer)
      (current : t.directories.get? inner.directory = some (id, children)) :
      Step t (.leave id) (t.leave id up inner outer)

theorem ScopeTree.Sound.step {t t' : ScopeTree} {u : ScopeUse} (sound : t.Sound)
    (step : t.Step u t') : t'.Sound := by
  cases step with
  | still => exact sound
  | enter o found => exact sound.enter found ..
  | enterDirectory found => exact sound.enterDirectory found
  | leave here above => exact sound.leave here above

namespace ScopeUse

theorem steps (s : Scopes) (u : ScopeUse) : s.tree.Step u (u.apply s).tree := by
  cases u with
  | enter origin o =>
    rw [apply]
    split
    case h_1 created =>
      rw [ScopeOpening.createNested] at created
      obtain ⟨parent, found, -, -, tree⟩ := Scopes.treeCreateNested created
      rw [tree]
      exact .enter o (Scopes.liveTree found)
    case h_2 => exact .still
  | enterDirectory origin =>
    rw [apply]
    split
    case h_1 created =>
      obtain ⟨parent, found, -, tree⟩ := Scopes.treeCreateDirectory created
      rw [tree]
      exact .enterDirectory (Scopes.liveTree found)
    case h_2 => exact .still
  | leave id =>
    rw [apply]
    split
    case h_1 popped =>
      obtain ⟨inner, outer, children, here, above, current, tree⟩ := Scopes.treePop popped
      rw [tree]
      exact .leave here above current
    case h_2 => exact .still
  | edit id e =>
    rw [apply, ScopeEdit.treeApply]
    exact .still
  | setListFile =>
    rw [apply, Scopes.treeSetListFile]
    exact .still
  | setLocations =>
    rw [apply, Scopes.treeSetLocations]
    exact .still
  | describeDirectory =>
    rw [apply, Scopes.treeUpdateDirectory]
    · exact .still
    · exact fun _ => ⟨rfl, rfl⟩

theorem soundApply {s : Scopes} (sound : s.tree.Sound) (u : ScopeUse) : (u.apply s).tree.Sound :=
  sound.step (u.steps s)

end ScopeUse

/-- The scopes that come about from a first snapshot. -/
inductive Scopes.Reachable : Scopes → Prop where
  | initial : Reachable initial
  | use {s : Scopes} : Reachable s → (u : ScopeUse) → Reachable (u.apply s)

theorem Scopes.Reachable.sound {s : Scopes} (reachable : s.Reachable) : s.tree.Sound := by
  induction reachable with
  | initial => exact soundInitial
  | use _ u ih => exact ScopeUse.soundApply ih u

end CMakeScript
