import CMakeScript.Scopes
import CMakeScript.Proofs.Arena
/-! The tree of snapshots apart from what is written inside of it. Edits of variables, policies,
contents and properties do not show in the tree; opening and closing of scopes is described as a
whole, guards included. -/
namespace CMakeScript

@[simp] theorem PerContent.getOfFn {α : Type} (f : ContentKind → α) (kind : ContentKind) :
    (ofFn f).get kind = f kind := by
  cases kind <;> rfl

def Snapshot.place (p : Snapshot) : Snapshot :=
  { p with policies := 0, policyRoot := 0, policyScope := 0, contentLengths := .ofFn fun _ => 0 }

def Snapshot.identity (p : Snapshot) : Snapshot := { p with contentLengths := .ofFn fun _ => 0 }

structure ScopeTree where
  snapshots : Arena Snapshot
  frames : Arena Unit
  listFiles : Arena Unit
  directories : Arena (Nat × List Nat)

namespace Scopes

def tree (s : Scopes) : ScopeTree :=
  ⟨s.snapshots.map Snapshot.place, s.frames.map fun _ => (), s.listFiles.map fun _ => (),
    s.directories.map fun d => (d.current, d.children)⟩

@[simp] theorem sizeTreeSnapshots (s : Scopes) : s.tree.snapshots.size = s.snapshots.size :=
  Arena.sizeMap ..

@[simp] theorem sizeTreeFrames (s : Scopes) : s.tree.frames.size = s.frames.size :=
  Arena.sizeMap ..

@[simp] theorem sizeTreeListFiles (s : Scopes) : s.tree.listFiles.size = s.listFiles.size :=
  Arena.sizeMap ..

theorem nodeTree (s : Scopes) (id : Nat) : s.tree.snapshots.node? id =
    (s.snapshots.node? id).map fun node => (node.1, node.2.place) :=
  Arena.nodeMap ..

theorem getTree (s : Scopes) (id : Nat) :
    s.tree.snapshots.get? id = (s.snapshots.get? id).map Snapshot.place :=
  Arena.getMap ..

theorem liveTree {s : Scopes} {id : Nat} {here : Snapshot}
    (live : s.snapshots.get? id = some here) : s.tree.snapshots.get? id = some here.place := by
  rw [getTree, live, Option.map_some]

theorem directoryTree (s : Scopes) (id : Nat) : s.tree.directories.get? id =
    (s.directories.get? id).map fun d => (d.current, d.children) :=
  Arena.getMap ..

theorem raiseCases {s s' : Scopes} {id : Nat} {name : String} {value : Option String}
    (raised : s.raise? id name value = some s') :
    ∃ here, s.snapshots.get? id = some here ∧
      ((here.scopeParent = here.directoryParent ∧ ∃ above, s.parentDirectory? id = some above ∧
          s' = value.elim (s.undefine above name) (s.define above name)) ∨
        (here.scopeParent ≠ here.directoryParent ∧
          s' = { s with
            frames := (s.frames.localize here.frame here.rootFrame name).assign here.parentFrame
              name value })) := by
  unfold raise? at raised
  obtain ⟨here, found, raised⟩ := Option.bind_eq_some_iff.mp raised
  refine ⟨here, found, ?_⟩
  split at raised
  case isTrue top =>
    obtain ⟨above, receiver, raised⟩ := Option.bind_eq_some_iff.mp raised
    refine .inl ⟨top, above, receiver, ?_⟩
    cases value <;> cases raised <;> rfl
  case isFalse below =>
    cases raised
    exact .inr ⟨below, rfl⟩

theorem raiseFrames {s s' : Scopes} {id : Nat} {name : String} {value : Option String}
    (raised : s.raise? id name value = some s') : ∃ frames, s' = { s with frames := frames } := by
  obtain ⟨here, -, ⟨-, above, -, rfl⟩ | ⟨-, rfl⟩⟩ := raiseCases raised
  · cases value with
    | none =>
      rw [Option.elim_none, undefine]
      split <;> exact ⟨_, rfl⟩
    | some v =>
      rw [Option.elim_some, define]
      split <;> exact ⟨_, rfl⟩
  · exact ⟨_, rfl⟩

theorem pushPolicyCases {s s' : Scopes} {id : Nat} {settings : PolicySettings} {weak : Bool}
    (pushed : s.pushPolicy id settings weak = .ok s') :
    ∃ here, s.snapshots.get? id = some here ∧ s' =
      modifySnapshot { s with policies := (s.policies.push here.policies ⟨settings, weak⟩).1 } id
        fun p => { p with policies := s.policies.size + 1 } := by
  cases found : s.snapshots.get? id with
  | none => simp [pushPolicy, snapshot, found, bind, Except.bind] at pushed
  | some here =>
    simp only [pushPolicy, snapshot, found, bind, Except.bind, Except.ok.injEq] at pushed
    exact ⟨here, rfl, by rw [← pushed, Arena.pushName]⟩

theorem popPolicyCases {s s' : Scopes} {id : Nat} (popped : s.popPolicy id = .ok (some s')) :
    ∃ here, s.snapshots.get? id = some here ∧ here.policies ≠ here.policyScope ∧ s' =
      modifySnapshot { s with policies := (s.policies.pop here.policies).1 } id
        fun p => { p with policies := (s.policies.pop here.policies).2 } := by
  cases found : s.snapshots.get? id with
  | none => simp [popPolicy, snapshot, found, bind, Except.bind] at popped
  | some here =>
    simp only [popPolicy, snapshot, found, bind, Except.bind] at popped
    split at popped
    case isTrue => cases popped
    case isFalse inside =>
      cases popped
      exact ⟨here, rfl, inside, rfl⟩

theorem markPolicyScopeCases {s s' : Scopes} {id : Nat} (marked : s.markPolicyScope id = .ok s') :
    s' = s.modifySnapshot id fun p => { p with policyScope := p.policies } := by
  unfold markPolicyScope snapshot at marked
  cases found : s.snapshots.get? id with
  | none => simp [found, bind, Except.bind] at marked
  | some here =>
    simp only [found, bind, Except.bind, Except.ok.injEq] at marked
    exact marked.symm

@[simp] theorem treeFrames (s : Scopes) (id : Nat) (f : Bindings → Bindings) :
    ({ s with frames := s.frames.modify id f } : Scopes).tree = s.tree := by
  simp [tree, Arena.mapModify]

theorem treeModifySnapshot (s : Scopes) (id : Nat) {f : Snapshot → Snapshot}
    (hidden : ∀ p, (f p).place = p.place) : (s.modifySnapshot id f).tree = s.tree := by
  simp [tree, modifySnapshot, Arena.mapModify hidden]

theorem treeModifyDirectory (s : Scopes) (id : Nat) {f : Directory → Directory}
    (hidden : ∀ d, (f d).current = d.current ∧ (f d).children = d.children) :
    (s.modifyDirectory id f).tree = s.tree := by
  unfold tree modifyDirectory
  rw [Arena.mapModify]
  intro d
  rw [(hidden d).1, (hidden d).2]

@[simp] theorem treeDefine (s : Scopes) (id : Nat) (name value : String) :
    (s.define id name value).tree = s.tree := by
  unfold define
  split
  · exact treeFrames ..
  · rfl

@[simp] theorem treeUndefine (s : Scopes) (id : Nat) (name : String) :
    (s.undefine id name).tree = s.tree := by
  unfold undefine
  split
  · exact treeFrames ..
  · rfl

theorem defineDefaultsKept {α : Type} {f : Scopes → α}
    (kept : ∀ s id name value, f (define s id name value) = f s) (s : Scopes) (id : Nat) :
    f (s.defineDefaults id) = f s := by
  unfold defineDefaults
  induction defaults generalizing s with
  | nil => rfl
  | cons entry rest ih => rw [List.foldl_cons, ih, kept]

theorem treeLocalize (s : Scopes) (frame root : Nat) (name : String) :
    ({ s with frames := s.frames.localize frame root name } : Scopes).tree = s.tree := by
  unfold Variables.localize
  split
  · rfl
  · exact treeFrames ..

theorem treeRaise {s s' : Scopes} {id : Nat} {name : String} {value : Option String}
    (raised : s.raise? id name value = some s') : s'.tree = s.tree := by
  obtain ⟨here, -, ⟨-, above, -, rfl⟩ | ⟨-, rfl⟩⟩ := raiseCases raised
  · cases value with
    | none => exact treeUndefine ..
    | some v => exact treeDefine ..
  · exact (treeFrames { s with frames := _ } ..).trans (treeLocalize ..)

@[simp] theorem treeSetPolicy (s : Scopes) (id : Nat) (p : Policy) (status : PolicyStatus) :
    (s.setPolicy id p status).tree = s.tree := by
  unfold setPolicy
  split <;> rfl

theorem treePushPolicy {s s' : Scopes} {id : Nat} {settings : PolicySettings} {weak : Bool}
    (pushed : s.pushPolicy id settings weak = .ok s') : s'.tree = s.tree := by
  obtain ⟨here, -, rfl⟩ := pushPolicyCases pushed
  exact treeModifySnapshot _ _ fun _ => rfl

theorem treePopPolicy {s s' : Scopes} {id : Nat} (popped : s.popPolicy id = .ok (some s')) :
    s'.tree = s.tree := by
  obtain ⟨here, -, -, rfl⟩ := popPolicyCases popped
  exact treeModifySnapshot _ _ fun _ => rfl

theorem treeMarkPolicyScope {s s' : Scopes} {id : Nat} (marked : s.markPolicyScope id = .ok s') :
    s'.tree = s.tree := by
  rw [markPolicyScopeCases marked]
  exact treeModifySnapshot _ _ fun _ => rfl

@[simp] theorem treeSetListFile (s : Scopes) (id : Nat) (path : String) :
    (s.setListFile id path).tree = s.tree := by
  unfold setListFile Arena.set
  split
  · simp [tree, Arena.mapModify]
  · rfl

theorem treeUpdateDirectory (s : Scopes) (id : Nat) {f : Directory → Directory}
    (hidden : ∀ d, (f d).current = d.current ∧ (f d).children = d.children) :
    (s.updateDirectory id f).tree = s.tree := by
  unfold updateDirectory
  split
  · exact treeModifyDirectory _ _ hidden
  · rfl

@[simp] theorem treeSetLocations (s : Scopes) (id : Nat) (source binary : String) :
    (s.setLocations id source binary).tree = s.tree := by
  unfold setLocations
  rw [treeDefine, treeDefine]
  exact treeUpdateDirectory _ _ fun _ => ⟨rfl, rfl⟩

@[simp] theorem treeLogContent (s : Scopes) (id : Nat) (kind : ContentKind) (entries : ContentLog) :
    (s.logContent id kind entries).tree = s.tree := by
  unfold logContent
  split
  · split
    · refine (treeModifySnapshot (s.modifyDirectory _ _) id ?_).trans ?_
      · intro p
        rfl
      · exact treeModifyDirectory _ _ fun _ => ⟨rfl, rfl⟩
    · rfl
  · rfl

def innerSnapshot (s : Scopes) (origin : Nat) (parent : Snapshot) (kind : SnapshotKind)
    (keep : Bool) (file : Option String) (fresh : Bool) : Snapshot :=
  { parent with
    kind := kind,
    keep := keep,
    policyScope := parent.policies,
    listFile := if file.isSome then s.listFiles.size + 1 else parent.listFile,
    scopeParent := if fresh then origin else parent.scopeParent,
    parentFrame := if fresh then parent.frame else parent.parentFrame,
    frame := if fresh then s.frames.size + 1 else parent.frame }

def innerScopes (s : Scopes) (origin : Nat) (parent : Snapshot) (kind : SnapshotKind) (keep : Bool)
    (file : Option String) (fresh : Bool) : Scopes :=
  modifyDirectory { s with
      snapshots := (s.snapshots.push origin (s.innerSnapshot origin parent kind keep file fresh)).1,
      frames := if fresh then (s.frames.pushFrame parent.frame).1 else s.frames,
      listFiles := match file with
        | some path => (s.listFiles.push parent.listFile path).1
        | none => s.listFiles }
    parent.directory fun d => { d with current := s.snapshots.size + 1 }

theorem innerScopesNew (s : Scopes) (origin : Nat) (parent : Snapshot) (kind : SnapshotKind)
    (keep : Bool) (file : Option String) (fresh : Bool) :
    (s.innerScopes origin parent kind keep file fresh).snapshots.get? (s.snapshots.size + 1) =
      some (s.innerSnapshot origin parent kind keep file fresh) := by
  unfold innerScopes modifyDirectory
  rw [Arena.getPush, if_pos rfl]

theorem createNestedOf {s : Scopes} {origin : Nat} {parent : Snapshot}
    (found : s.snapshots.get? origin = some parent) (kind : SnapshotKind) (keep : Bool)
    (file : Option String) (fresh : Bool) : s.createNested origin kind keep file fresh =
      .ok (s.innerScopes origin parent kind keep file fresh, s.snapshots.size + 1) := by
  unfold createNested snapshot innerScopes
  cases file <;> cases fresh <;>
    simp [found, bind, Except.bind, innerSnapshot, Variables.pushFrame]

theorem createNestedNone {s : Scopes} {origin : Nat} (absent : s.snapshots.get? origin = none)
    (kind : SnapshotKind) (keep : Bool) (file : Option String) (fresh : Bool) :
    s.createNested origin kind keep file fresh = .error (.invalidSnapshot origin) := by
  simp [createNested, snapshot, absent, bind, Except.bind]

theorem createNestedCases {s s' : Scopes} {origin id : Nat} {kind : SnapshotKind} {keep fresh : Bool}
    {file : Option String} (created : s.createNested origin kind keep file fresh = .ok (s', id)) :
    ∃ parent, s.snapshots.get? origin = some parent ∧ id = s.snapshots.size + 1 ∧
      s' = s.innerScopes origin parent kind keep file fresh := by
  cases found : s.snapshots.get? origin with
  | none => simp [createNestedNone found] at created
  | some parent =>
    rw [createNestedOf found] at created
    cases created
    exact ⟨parent, rfl, rfl, rfl⟩

def directorySnapshot (s : Scopes) (origin : Nat) (parent : Snapshot) : Snapshot where
  kind := .directory
  keep := true
  scopeParent := origin
  directoryParent := origin
  directory := s.directories.size + 1
  listFile := s.listFiles.size + 1
  frame := s.frames.size + 1
  parentFrame := parent.frame
  rootFrame := parent.frame
  policies := s.policies.size + 1
  policyRoot := s.policies.size + 1
  policyScope := s.policies.size + 1
  contentLengths := .ofFn fun kind => (s.content origin kind).length

def bareDirectory (s : Scopes) (origin : Nat) (parent : Snapshot) : Scopes where
  snapshots := (s.snapshots.push origin (s.directorySnapshot origin parent)).1
  frames := (s.frames.push parent.frame (s.frames.closure parent.frame parent.rootFrame)).1
  policies := (s.policies.push parent.policies {}).1
  listFiles := (s.listFiles.push parent.listFile "").1
  directories := (s.directories.push parent.directory
    { current := s.snapshots.size + 1,
      contents := .ofFn fun kind => (s.content origin kind).map some }).1.modify parent.directory
      fun d => { d with children := d.children ++ [s.snapshots.size + 1] }

theorem bareDirectoryNew (s : Scopes) (origin : Nat) (parent : Snapshot) :
    (s.bareDirectory origin parent).snapshots.get? (s.snapshots.size + 1) =
      some (s.directorySnapshot origin parent) := by
  rw [bareDirectory, Arena.getPush, if_pos rfl]

theorem createDirectoryOf {s : Scopes} {origin : Nat} {parent : Snapshot}
    (found : s.snapshots.get? origin = some parent) : s.createDirectory origin =
      .ok ((s.bareDirectory origin parent).defineDefaults (s.snapshots.size + 1),
        s.snapshots.size + 1) := by
  cases there : s.directories.get? parent.directory <;>
    simp only [createDirectory, bareDirectory, directorySnapshot, content, snapshot, found, there,
      bind, Except.bind, modifyDirectory, Variables.replace, Variables.pushFrame, Arena.set,
      Arena.pushName, Arena.modifyPush, PerContent.getOfFn]

theorem createDirectoryCases {s s' : Scopes} {origin id : Nat}
    (created : s.createDirectory origin = .ok (s', id)) :
    ∃ parent, s.snapshots.get? origin = some parent ∧ id = s.snapshots.size + 1 ∧
      s' = (s.bareDirectory origin parent).defineDefaults id := by
  cases found : s.snapshots.get? origin with
  | none => simp [createDirectory, snapshot, found, bind, Except.bind] at created
  | some parent =>
    rw [createDirectoryOf found] at created
    obtain ⟨rfl, rfl⟩ := Prod.mk.inj (Except.ok.inj created)
    exact ⟨parent, rfl, rfl, rfl⟩

def resume (s : Scopes) (parent : Nat) (outer : Snapshot) : Scopes :=
  let lengths : PerContent Nat := match s.directories.get? outer.directory with
    | some d => .ofFn fun kind => (d.contents.get kind).length
    | none => .ofFn fun _ => 0
  (s.modifySnapshot parent fun p => { p with contentLengths := lengths }).modifyDirectory
    outer.directory fun d => { d with current := parent }

theorem popOf {s : Scopes} {id up : Nat} {inner outer : Snapshot} {d : Directory}
    (here : s.snapshots.node? id = some (up, inner))
    (directory : s.directories.get? inner.directory = some d) (current : d.current = id)
    (above : s.snapshots.get? up = some outer) :
    s.pop id = .ok ((s.resume up outer).reclaim id inner outer, up) := by
  unfold pop snapshot
  simp only [Arena.getOfNode here, bind, Except.bind, directory, Option.map_some, current,
    ne_eq, not_true_eq_false, if_false, Arena.parentOfNode here, above]
  rfl

theorem popCases {s s' : Scopes} {id up : Nat} (popped : s.pop id = .ok (s', up)) :
    ∃ inner outer d, s.snapshots.node? id = some (up, inner) ∧
      s.directories.get? inner.directory = some d ∧ d.current = id ∧
      s.snapshots.get? up = some outer ∧ s' = (s.resume up outer).reclaim id inner outer := by
  cases here : s.snapshots.get? id with
  | none => simp [pop, snapshot, here, bind, Except.bind] at popped
  | some inner =>
    by_cases current : (s.directories.get? inner.directory).map (·.current) = some id
    · obtain ⟨d, directory, atId⟩ := Option.map_eq_some_iff.mp current
      cases above : s.snapshots.get? (s.snapshots.parent id) with
      | none => simp [pop, snapshot, here, current, above, bind, Except.bind] at popped
      | some outer =>
        have whole := popOf (Arena.getIffNode.mp here) directory atId above
        rw [whole] at popped
        cases popped
        exact ⟨inner, outer, d, Arena.getIffNode.mp here, directory, atId, above, rfl⟩
    · simp [pop, snapshot, here, current, bind, Except.bind] at popped

theorem popRefused {s : Scopes} {id : Nat}
    (notCurrent : ∀ p d, s.snapshots.get? id = some p → s.directories.get? p.directory = some d →
      d.current ≠ id) : ∃ error, s.pop id = .error error := by
  cases popped : s.pop id with
  | error error => exact ⟨error, rfl⟩
  | ok result =>
    obtain ⟨inner, _, d, here, directory, current, _⟩ := popCases popped
    exact absurd current (notCurrent inner d (Arena.getOfNode here) directory)

end Scopes
end CMakeScript
