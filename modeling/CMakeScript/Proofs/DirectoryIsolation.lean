import CMakeScript.Proofs.Lookup
import CMakeScript.Proofs.ScopeLineage
/-! Directories do not see each other's variables. A new directory starts with what its origin sees;
afterwards what happens in one directory shows in another only where a value is raised out of the
top scope of a directory into the directory around it. -/
namespace CMakeScript
namespace Scopes

structure Spares (s s' : Scopes) (id : Nat) : Prop where
  place : (s'.snapshots.get? id).map Snapshot.place = (s.snapshots.get? id).map Snapshot.place
  definition : ∀ name, s'.definition? id name = s.definition? id name

theorem Spares.refl (s : Scopes) (id : Nat) : s.Spares s id := ⟨rfl, fun _ => rfl⟩

theorem Spares.trans {s s' s'' : Scopes} {id : Nat} (first : s.Spares s' id)
    (second : s'.Spares s'' id) : s.Spares s'' id where
  place := second.place.trans first.place
  definition name := (second.definition name).trans (first.definition name)

theorem definitionOf {s : Scopes} {id : Nat} {here : Snapshot}
    (live : s.snapshots.get? id = some here) (name : String) :
    s.definition? id name = s.frames.lookup here.frame here.rootFrame name := by
  simp [definition?, live]

theorem placeOfTree {s s' : Scopes} (same : s'.tree = s.tree) (id : Nat) :
    (s'.snapshots.get? id).map Snapshot.place = (s.snapshots.get? id).map Snapshot.place := by
  rw [← getTree, ← getTree, same]

theorem sparesOfLookup {s s' : Scopes} {id : Nat} {here : Snapshot}
    (live : s.snapshots.get? id = some here)
    (place : (s'.snapshots.get? id).map Snapshot.place = some here.place)
    (lookup : ∀ name, s'.frames.lookup here.frame here.rootFrame name =
      s.frames.lookup here.frame here.rootFrame name) : s.Spares s' id := by
  obtain ⟨there, live', same⟩ := Option.map_eq_some_iff.mp place
  have frame : there.frame = here.frame := show there.place.frame = here.place.frame by rw [same]
  have rootFrame : there.rootFrame = here.rootFrame :=
    show there.place.rootFrame = here.place.rootFrame by rw [same]
  refine ⟨by rw [place, live]; rfl, fun name => ?_⟩
  rw [definitionOf live', definitionOf live, frame, rootFrame, lookup]

theorem sparesOfFrames {s s' : Scopes} (tree : s'.tree = s.tree) (frames : s'.frames = s.frames)
    (id : Nat) : s.Spares s' id := by
  cases live : s.snapshots.get? id with
  | none =>
    have place := placeOfTree tree id
    rw [live, Option.map_none, Option.map_eq_none_iff] at place
    exact ⟨by rw [place, live], fun name => by simp [definition?, place, live]⟩
  | some here =>
    refine sparesOfLookup live ?_ fun name => by rw [frames]
    rw [placeOfTree tree, live, Option.map_some]

theorem sparesOfAgree {s s' : Scopes} {id : Nat} {here : Snapshot} (rooted : s.tree.Rooted)
    (rooted' : s'.tree.Rooted) (live : s.snapshots.get? id = some here)
    (place : (s'.snapshots.get? id).map Snapshot.place = some here.place)
    (agree : ∀ i ≤ here.frame, s'.frames.node? i = s.frames.node? i) : s.Spares s' id :=
  sparesOfLookup live place fun name => Variables.lookupAgree (Arena.fallingMap.mp rooted.frames)
    (Arena.fallingMap.mp rooted'.frames) agree here.rootFrame name

theorem lineageTree (s : Scopes) (here : Snapshot) :
    s.tree.lineage here.place = (s.frames.chain here.frame here.rootFrame).map Prod.fst := by
  rw [ScopeTree.lineage, show here.place.frame = here.frame from rfl, ancestorsTree, Variables.chain,
    List.takeWhile_map]
  rfl

theorem parentTree (s : Scopes) (d : Nat) : s.tree.directories.parent d = s.directories.parent d :=
  Arena.parentMap ..

section Write

variable {s : Scopes} {id other : Nat} {here there : Snapshot}

theorem sparesWrite (rooted : s.tree.Rooted) (live : s.snapshots.get? id = some here)
    (elsewhere : s.snapshots.get? other = some there) (different : there.directory ≠ here.directory)
    {frame : Nat} (own : frame ∈ s.tree.lineage there.place) (f : Bindings → Bindings) :
    s.Spares { s with frames := s.frames.modify frame f } id := by
  refine sparesOfLookup live (by rw [live, Option.map_some]) (Variables.lookupApart f ?_)
  rw [← lineageTree]
  intro shared
  have same : there.place.directory = here.place.directory :=
    rooted.apart (liveTree elsewhere) (liveTree live) own shared
  exact different same

theorem frameOwn (rooted : s.tree.Rooted) (elsewhere : s.snapshots.get? other = some there) :
    there.frame ∈ s.tree.lineage there.place :=
  (rooted.hung (liveTree elsewhere)).frameMember rooted.frames

theorem sparesDefine (rooted : s.tree.Rooted) (live : s.snapshots.get? id = some here)
    (different : ∀ there, s.snapshots.get? other = some there → there.directory ≠ here.directory)
    (name value : String) : s.Spares (s.define other name value) id := by
  unfold define
  split
  case h_1 there elsewhere =>
    exact sparesWrite rooted live elsewhere (different there elsewhere) (frameOwn rooted elsewhere) _
  case h_2 => exact .refl ..

theorem sparesUndefine (rooted : s.tree.Rooted) (live : s.snapshots.get? id = some here)
    (different : ∀ there, s.snapshots.get? other = some there → there.directory ≠ here.directory)
    (name : String) : s.Spares (s.undefine other name) id := by
  unfold undefine
  split
  case h_1 there elsewhere =>
    exact sparesWrite rooted live elsewhere (different there elsewhere) (frameOwn rooted elsewhere) _
  case h_2 => exact .refl ..

theorem sparesLocalize (rooted : s.tree.Rooted) (live : s.snapshots.get? id = some here)
    (elsewhere : s.snapshots.get? other = some there) (different : there.directory ≠ here.directory)
    (name : String) :
    s.Spares { s with frames := s.frames.localize there.frame there.rootFrame name } id := by
  unfold Variables.localize
  split
  · exact .refl ..
  · exact sparesWrite rooted live elsewhere different (frameOwn rooted elsewhere) _

theorem parentDirectoryCases {above : Nat} (sound : s.tree.Sound) (rooted : s.tree.Rooted)
    (elsewhere : s.snapshots.get? other = some there)
    (receiver : s.parentDirectory? other = some above) :
    ∃ outer, s.snapshots.get? above = some outer ∧
      outer.directory = s.directories.parent there.directory := by
  unfold parentDirectory? at receiver
  rw [elsewhere] at receiver
  simp only [Option.bind_eq_bind, Option.bind_some] at receiver
  split_ifs at receiver with base
  obtain ⟨d, found, rfl⟩ := Option.map_eq_some_iff.mp receiver
  obtain ⟨origin, atOrigin, found⟩ := Option.bind_eq_some_iff.mp found
  have described : s.tree.directories.get? origin.directory = some (d.current, d.children) := by
    rw [directoryTree, found]
    rfl
  obtain ⟨p, live, inside⟩ := sound.current described
  rw [getTree] at live
  obtain ⟨outer, there', rfl⟩ := Option.map_eq_some_iff.mp live
  refine ⟨outer, there', ?_⟩
  obtain ⟨zero, -⟩ | ⟨q, atQ, same⟩ := (rooted.hung (liveTree elsewhere)).outside
  · exact absurd zero base
  · have atPlace : s.tree.snapshots.get? there.place.directoryParent = some origin.place :=
      liveTree atOrigin
    rw [atPlace] at atQ
    cases atQ
    rw [← parentTree]
    exact inside.trans same.symm

theorem sparesRaise {s' : Scopes} (sound : s.tree.Sound) (rooted : s.tree.Rooted)
    (live : s.snapshots.get? id = some here)
    (different : ∀ there, s.snapshots.get? other = some there → there.directory ≠ here.directory ∧
      (there.parentFrame = there.rootFrame → s.directories.parent there.directory ≠ here.directory))
    {name : String} {value : Option String} (raised : s.raise? other name value = some s') :
    s.Spares s' id := by
  obtain ⟨there, elsewhere, raised⟩ := raiseCases raised
  obtain ⟨apart, notInto⟩ := different there elsewhere
  have hung := rooted.hung (liveTree elsewhere)
  obtain ⟨top, above, receiver, rfl⟩ | ⟨below, rfl⟩ := raised
  · obtain ⟨outer, atAbove, outside⟩ := parentDirectoryCases sound rooted elsewhere receiver
    have other : ∀ q, s.snapshots.get? above = some q → q.directory ≠ here.directory := by
      intro q found
      rw [atAbove] at found
      cases found
      rw [outside]
      exact notInto (hung.top.mp top)
    cases value with
    | none => exact sparesUndefine rooted live other name
    | some v => exact sparesDefine rooted live other name v
  · have first := sparesLocalize rooted live elsewhere apart name
    have tree := treeLocalize s there.frame there.rootFrame name
    have between : ({ s with frames := s.frames.localize there.frame there.rootFrame name } :
        Scopes).tree.Rooted := tree ▸ rooted
    refine first.trans (sparesWrite between live elsewhere apart ?_ _)
    rw [tree]
    exact hung.parentFrameMember rooted.frames fun same => below (hung.top.mpr same)

end Write

@[simp] theorem framesSetPolicy (s : Scopes) (id : Nat) (p : Policy) (status : PolicyStatus) :
    (s.setPolicy id p status).frames = s.frames := by
  unfold setPolicy
  split <;> rfl

theorem framesPushPolicy {s s' : Scopes} {id : Nat} {settings : PolicySettings} {weak : Bool}
    (pushed : s.pushPolicy id settings weak = .ok s') : s'.frames = s.frames := by
  obtain ⟨here, -, rfl⟩ := pushPolicyCases pushed
  rfl

theorem framesPopPolicy {s s' : Scopes} {id : Nat} (popped : s.popPolicy id = .ok (some s')) :
    s'.frames = s.frames := by
  obtain ⟨here, -, -, rfl⟩ := popPolicyCases popped
  rfl

theorem framesMarkPolicyScope {s s' : Scopes} {id : Nat} (marked : s.markPolicyScope id = .ok s') :
    s'.frames = s.frames := by
  rw [markPolicyScopeCases marked]
  rfl

@[simp] theorem framesLogContent (s : Scopes) (id : Nat) (kind : ContentKind)
    (entries : ContentLog) : (s.logContent id kind entries).frames = s.frames := by
  unfold logContent
  split
  · split <;> rfl
  · rfl

@[simp] theorem framesUpdateDirectory (s : Scopes) (id : Nat) (f : Directory → Directory) :
    (s.updateDirectory id f).frames = s.frames := by
  unfold updateDirectory
  split <;> rfl

@[simp] theorem snapshotsUpdateDirectory (s : Scopes) (id : Nat) (f : Directory → Directory) :
    (s.updateDirectory id f).snapshots = s.snapshots := by
  unfold updateDirectory
  split <;> rfl

@[simp] theorem framesSetListFile (s : Scopes) (id : Nat) (path : String) :
    (s.setListFile id path).frames = s.frames := by
  unfold setListFile
  split <;> rfl

theorem sparesSetLocations {s : Scopes} {id other : Nat} {here : Snapshot}
    (rooted : s.tree.Rooted) (live : s.snapshots.get? id = some here)
    (different : ∀ there, s.snapshots.get? other = some there → there.directory ≠ here.directory)
    (source binary : String) : s.Spares (s.setLocations other source binary) id := by
  have tree : (s.updateDirectory other fun d => { d with source, binary }).tree = s.tree :=
    treeUpdateDirectory _ _ fun _ => ⟨rfl, rfl⟩
  have described := sparesOfFrames tree (framesUpdateDirectory ..) id
  have first : (s.updateDirectory other fun d => { d with source, binary }).Spares
      (define _ other "CMAKE_CURRENT_SOURCE_DIR" source) id :=
    sparesDefine (tree ▸ rooted) (by simpa using live) (by simpa using different) ..
  have second : (define (s.updateDirectory other fun d => { d with source, binary }) other
      "CMAKE_CURRENT_SOURCE_DIR" source).Spares (s.setLocations other source binary) id :=
    sparesDefine (by rwa [treeDefine, tree]) (by simpa using live) (by simpa using different) ..
  exact (described.trans first).trans second

theorem framesCreateNested {s s' : Scopes} {origin id : Nat} {kind : SnapshotKind}
    {keep fresh : Bool} {file : Option String}
    (created : s.createNested origin kind keep file fresh = .ok (s', id)) :
    ∀ i ≤ s.frames.size, s'.frames.node? i = s.frames.node? i := by
  intro i bound
  obtain ⟨parent, -, -, rfl⟩ := createNestedCases created
  cases fresh
  · rfl
  · exact Arena.nodePushOld bound

theorem framesReclaim (s : Scopes) (id : Nat) (inner outer : Snapshot) :
    (s.reclaim id inner outer).frames = s.frames ∨
      (s.reclaim id inner outer).frames = (s.frames.pop inner.frame).1 := by
  unfold reclaim
  by_cases stays : (inner.keep || !s.snapshots.isLast id) = true
  · rw [if_pos stays]
    exact .inl rfl
  · rw [if_neg stays]
    by_cases own : (inner.frame != outer.frame && Arena.isLast s.frames inner.frame) = true
    · exact .inr (if_pos own)
    · exact .inl (if_neg own)

theorem framesPop {s s' : Scopes} {id up : Nat} (popped : s.pop id = .ok (s', up)) :
    ∀ i ≤ s'.frames.size, s'.frames.node? i = s.frames.node? i := by
  obtain ⟨inner, outer, -, -, -, -, -, rfl⟩ := popCases popped
  intro i bound
  obtain same | same := framesReclaim (s.resume up outer) id inner outer
  · rw [same]
    rfl
  · rw [same] at bound ⊢
    exact Arena.nodePopOld bound

@[simp] theorem snapshotsDefineDefaults (s : Scopes) (id : Nat) :
    (s.defineDefaults id).snapshots = s.snapshots :=
  defineDefaultsKept snapshotsDefine s id

theorem framesDefine {s : Scopes} {id : Nat} {here : Snapshot}
    (live : s.snapshots.get? id = some here) (name value : String) :
    ∀ i, i ≠ here.frame → (s.define id name value).frames.node? i = s.frames.node? i := by
  intro i different
  simp only [define, live, Variables.define, Arena.nodeModify, if_neg different]

theorem framesDefineDefaults {s : Scopes} {id : Nat} {here : Snapshot}
    (live : s.snapshots.get? id = some here) :
    ∀ i, i ≠ here.frame → (s.defineDefaults id).frames.node? i = s.frames.node? i := by
  unfold defineDefaults
  induction defaults generalizing s with
  | nil => exact fun _ _ => rfl
  | cons entry rest ih =>
    intro i different
    rw [List.foldl_cons, ih (by rw [snapshotsDefine, live]) i different,
      framesDefine live _ _ i different]

theorem definitionModify (s : Scopes) (frame id : Nat) {f : Bindings → Bindings} {other : String}
    (kept : ∀ b, (f b)[other]? = b[other]?) :
    ({ s with frames := s.frames.modify frame f } : Scopes).definition? id other =
      s.definition? id other := by
  cases live : s.snapshots.get? id with
  | none => simp [definition?, live]
  | some p =>
    simp only [definition?, live, Option.bind_eq_bind, Option.bind_some]
    exact Variables.lookupKept kept ..

theorem definitionDefine (s : Scopes) (place id : Nat) {name other : String}
    (different : name ≠ other) (value : String) :
    (s.define place name value).definition? id other = s.definition? id other := by
  unfold define
  split
  · exact definitionModify _ _ _ fun b => by simp [different]
  · rfl

theorem definitionDefineDefaults (s : Scopes) (place id : Nat) {name : String}
    (other : name ∉ defaults.map Prod.fst) :
    (s.defineDefaults place).definition? id name = s.definition? id name := by
  unfold defineDefaults
  generalize defaults = entries at other ⊢
  induction entries generalizing s with
  | nil => rfl
  | cons entry rest ih =>
    simp only [List.map_cons, List.mem_cons, not_or] at other
    rw [List.foldl_cons, ih _ other.2, definitionDefine _ _ _ (Ne.symm other.1)]

theorem definitionCreateDirectory {s s' : Scopes} {origin id : Nat} (rooted : s.tree.Rooted)
    (sound : s.tree.Sound) (created : s.createDirectory origin = .ok (s', id)) {name : String}
    (other : name ∉ defaults.map Prod.fst) : s'.definition? id name = s.definition? origin name := by
  obtain ⟨parent, found, rfl, same⟩ := createDirectoryCases created
  have known : parent.frame ≤ s.frames.size := by
    simpa [Snapshot.place] using (sound.placed (liveTree found)).frame
  have falling : (s.bareDirectory origin parent).frames.Falling :=
    Arena.fallingPush (Arena.fallingMap.mp rooted.frames) known _
  have here : (s.bareDirectory origin parent).frames.node? (s.frames.size + 1) =
      some (parent.frame, s.frames.closure parent.frame parent.rootFrame) := Arena.nodePushNew ..
  rw [same, definitionDefineDefaults _ _ _ other, definitionOf (bareDirectoryNew ..),
    definitionOf found]
  rw [directorySnapshot, Variables.lookupTop falling here, Variables.closureAt]
  generalize s.frames.lookup parent.frame parent.rootFrame name = value
  cases value <;> rfl

section Step

variable {s s' : Scopes} {id origin other : Nat} {here : Snapshot}

theorem sparesCreateNested (rooted : s.tree.Rooted) (rooted' : s'.tree.Rooted)
    (sound : s.tree.Sound) (live : s.snapshots.get? id = some here) {kind : SnapshotKind}
    {keep fresh : Bool} {file : Option String}
    (created : s.createNested origin kind keep file fresh = .ok (s', other)) : s.Spares s' id := by
  obtain ⟨parent, found, -, snapshots, -⟩ := treeCreateNested created
  have known : here.frame ≤ s.frames.size := by
    simpa [Snapshot.place] using (sound.placed (liveTree live)).frame
  refine sparesOfAgree rooted rooted' live ?_ fun i bound =>
    framesCreateNested created i (Nat.le_trans bound known)
  have old := (Arena.getBounds live).2
  rw [snapshots, Arena.getPush, if_neg (by omega), live, Option.map_some]

theorem sparesCreateDirectory (rooted : s.tree.Rooted) (rooted' : s'.tree.Rooted)
    (sound : s.tree.Sound) (live : s.snapshots.get? id = some here)
    (created : s.createDirectory origin = .ok (s', other)) : s.Spares s' id := by
  obtain ⟨parent, found, rfl, same⟩ := createDirectoryCases created
  have known : here.frame ≤ s.frames.size := by
    simpa [Snapshot.place] using (sound.placed (liveTree live)).frame
  refine sparesOfAgree rooted rooted' live ?_ fun i bound => ?_
  · have old := (Arena.getBounds live).2
    rw [same, snapshotsDefineDefaults, bareDirectory, Arena.getPush, if_neg (by omega), live,
      Option.map_some]
  · have apart : i ≠ s.frames.size + 1 := by omega
    rw [same, framesDefineDefaults (bareDirectoryNew ..) i apart]
    exact Arena.nodePushOld (by omega)

theorem sparesPop {up : Nat} (rooted : s.tree.Rooted) (rooted' : s'.tree.Rooted)
    (sound' : s'.tree.Sound) (live : s.snapshots.get? id = some here) (different : id ≠ other)
    (popped : s.pop other = .ok (s', up)) : s.Spares s' id := by
  have identity := identityPop popped different
  rw [live, Option.map_some] at identity
  obtain ⟨there, live', same⟩ := Option.map_eq_some_iff.mp identity
  have place : there.place = here.place :=
    show there.identity.place = here.identity.place by rw [same]
  have known : here.frame ≤ s'.frames.size := by
    have placed := (sound'.placed (liveTree live')).frame
    rw [place] at placed
    simpa [Snapshot.place] using placed
  refine sparesOfAgree rooted rooted' live ?_ fun i bound =>
    framesPop popped i (Nat.le_trans bound known)
  rw [live', Option.map_some, place]

end Step

end Scopes

def Snapshot.atTop (p : Snapshot) : Bool := p.parentFrame == p.rootFrame

namespace ScopeUse

def target : ScopeUse → Nat
  | enter origin _ | enterDirectory origin => origin
  | leave id | edit id _ | setListFile id _ | setLocations id _ _ | describeDirectory id _ _ _ => id

def raises : ScopeUse → Bool
  | edit _ (.raise _ _) => true
  | _ => false

/-- A use of another directory's snapshot, or of none, that raises nothing into directory `d`. -/
def Foreign (d : Nat) (s : Scopes) (u : ScopeUse) : Prop :=
  ∀ here ∈ s.snapshots.get? u.target, here.directory ≠ d ∧
    (u.raises = true → here.atTop = true → s.directories.parent here.directory ≠ d)

/-- A use of a snapshot of directory `d` that raises nothing out of the directory. -/
def Within (d : Nat) (s : Scopes) (u : ScopeUse) : Prop :=
  ∃ here ∈ s.snapshots.get? u.target, here.directory = d ∧ ¬(u.raises = true ∧ here.atTop = true)

instance (d : Nat) (s : Scopes) (u : ScopeUse) : Decidable (Foreign d s u) := by
  unfold Foreign
  infer_instance

instance (d : Nat) (s : Scopes) (u : ScopeUse) : Decidable (Within d s u) := by
  unfold Within
  infer_instance

theorem Within.foreign {s : Scopes} {d e : Nat} {u : ScopeUse} (within : u.Within d s)
    (different : d ≠ e) : u.Foreign e s := by
  obtain ⟨here, live, rfl, keeps⟩ := within
  intro there found
  cases live.symm.trans found
  exact ⟨different, fun raises top => absurd ⟨raises, top⟩ keeps⟩

section Spares

variable {s : Scopes} {id : Nat} {here : Snapshot}

theorem sparesEdit (sound : s.tree.Sound) (rooted : s.tree.Rooted)
    (live : s.snapshots.get? id = some here) (other : Nat) (e : ScopeEdit)
    (foreign : (edit other e).Foreign here.directory s) : s.Spares (e.apply s other) id := by
  have elsewhere : ∀ there, s.snapshots.get? other = some there → there.directory ≠ here.directory :=
    fun there found => (foreign there found).1
  cases e with
  | define => exact Scopes.sparesDefine rooted live elsewhere ..
  | undefine => exact Scopes.sparesUndefine rooted live elsewhere ..
  | raise name value =>
    rw [ScopeEdit.apply]
    cases raised : s.raise? other name value with
    | none => exact .refl ..
    | some s' =>
      refine Scopes.sparesRaise sound rooted live (fun there found => ?_) raised
      have allowed := foreign there found
      exact ⟨allowed.1, fun top => allowed.2 rfl (by simpa [Snapshot.atTop] using top)⟩
  | setPolicy => exact Scopes.sparesOfFrames (Scopes.treeSetPolicy ..) (Scopes.framesSetPolicy ..) id
  | pushPolicy settings weak =>
    rw [ScopeEdit.apply]
    split
    case h_1 pushed =>
      exact Scopes.sparesOfFrames (Scopes.treePushPolicy pushed) (Scopes.framesPushPolicy pushed) id
    case h_2 => exact .refl ..
  | popPolicy =>
    rw [ScopeEdit.apply]
    split
    case h_1 popped =>
      exact Scopes.sparesOfFrames (Scopes.treePopPolicy popped) (Scopes.framesPopPolicy popped) id
    case h_2 => exact .refl ..
  | markPolicyScope =>
    rw [ScopeEdit.apply]
    split
    case h_1 marked =>
      exact Scopes.sparesOfFrames (Scopes.treeMarkPolicyScope marked)
        (Scopes.framesMarkPolicyScope marked) id
    case h_2 => exact .refl ..
  | appendContent kind value =>
    rw [ScopeEdit.apply, Scopes.appendContent]
    split
    · exact .refl ..
    · exact Scopes.sparesOfFrames (Scopes.treeLogContent ..) (Scopes.framesLogContent ..) id
  | setContent =>
    exact Scopes.sparesOfFrames (Scopes.treeLogContent ..) (Scopes.framesLogContent ..) id
  | clearContent =>
    exact Scopes.sparesOfFrames (Scopes.treeLogContent ..) (Scopes.framesLogContent ..) id

theorem sparesApply (reachable : s.Reachable) (live : s.snapshots.get? id = some here)
    (u : ScopeUse) (foreign : u.Foreign here.directory s) : s.Spares (u.apply s) id := by
  have sound := reachable.sound
  have rooted := reachable.rooted
  have sound' := (reachable.use u).sound
  have rooted' := (reachable.use u).rooted
  cases u with
  | enter origin o =>
    rw [apply] at rooted' ⊢
    cases created : o.create s origin with
    | error => exact .refl ..
    | ok result =>
      rw [created] at rooted'
      rw [ScopeOpening.createNested] at created
      exact Scopes.sparesCreateNested rooted rooted' sound live created
  | enterDirectory origin =>
    rw [apply] at rooted' ⊢
    cases created : s.createDirectory origin with
    | error => exact .refl ..
    | ok result =>
      rw [created] at rooted'
      exact Scopes.sparesCreateDirectory rooted rooted' sound live created
  | leave other =>
    rw [apply] at rooted' sound' ⊢
    cases popped : s.pop other with
    | error => exact .refl ..
    | ok result =>
      rw [popped] at rooted' sound'
      refine Scopes.sparesPop rooted rooted' sound' live ?_ popped
      rintro rfl
      exact (foreign here live).1 rfl
  | edit other e => exact sparesEdit sound rooted live other e foreign
  | setListFile =>
    exact Scopes.sparesOfFrames (Scopes.treeSetListFile ..) (Scopes.framesSetListFile ..) id
  | setLocations other source binary =>
    exact Scopes.sparesSetLocations rooted live (fun there found => (foreign there found).1) ..
  | describeDirectory =>
    refine Scopes.sparesOfFrames ?_ (Scopes.framesUpdateDirectory ..) id
    exact Scopes.treeUpdateDirectory _ _ fun _ => ⟨rfl, rfl⟩

end Spares

end ScopeUse

namespace Scopes

def Obeys (rule : Scopes → ScopeUse → Prop) : Scopes → List ScopeUse → Prop
  | _, [] => True
  | s, u :: rest => rule s u ∧ Obeys rule (u.apply s) rest

instance decidableObeys (rule : Scopes → ScopeUse → Prop) [∀ s u, Decidable (rule s u)] :
    (s : Scopes) → (sequence : List ScopeUse) → Decidable (Obeys rule s sequence)
  | _, [] => isTrue trivial
  | s, u :: rest =>
    have := decidableObeys rule (u.apply s) rest
    inferInstanceAs (Decidable (rule s u ∧ Obeys rule (u.apply s) rest))

theorem sparesUses {rule : Scopes → ScopeUse → Prop} {d : Nat}
    (foreign : ∀ {s u}, rule s u → u.Foreign d s) {s : Scopes} (reachable : s.Reachable)
    {sequence : List ScopeUse} (obeys : Obeys rule s sequence) {id : Nat} {here : Snapshot}
    (live : s.snapshots.get? id = some here) (inside : here.directory = d) :
    s.Spares (s.uses sequence) id := by
  induction sequence generalizing s here with
  | nil => exact .refl ..
  | cons u rest ih =>
    obtain ⟨allowed, obeys⟩ := obeys
    have first := u.sparesApply reachable live (inside ▸ foreign allowed)
    have place := first.place
    rw [live, Option.map_some] at place
    obtain ⟨there, live', same⟩ := Option.map_eq_some_iff.mp place
    have directory : there.directory = here.directory :=
      show there.place.directory = here.place.directory by rw [same]
    exact first.trans (ih (reachable.use u) obeys live' (directory.trans inside))

theorem notOwnParent {s : Scopes} (sound : s.tree.Sound) (rooted : s.tree.Rooted) {id : Nat}
    {here : Snapshot} (live : s.snapshots.get? id = some here) :
    s.directories.parent here.directory ≠ here.directory := by
  obtain ⟨⟨up, value⟩, found⟩ := Option.isSome_iff_exists.mp (sound.placed (liveTree live)).directory
  have below := rooted.directories found
  have parent := Arena.parentOfNode found
  rw [parentTree] at parent
  exact fun same => Nat.lt_irrefl _ ((parent.symm.trans same) ▸ below)

/-- A new directory has what its origin sees but for the defaults; from then on uses elsewhere that
raise nothing into it leave it as it is, and uses inside that raise nothing out of it leave the
directory around it as it is. -/
theorem directoriesKeepApart {s : Scopes} (reachable : s.Reachable) :
    (∀ {origin s' id}, s.createDirectory origin = .ok (s', id) →
        ∀ name ∉ defaults.map Prod.fst, s'.definition? id name = s'.definition? origin name ∧
          s'.definition? origin name = s.definition? origin name) ∧
      (∀ {d sequence}, Obeys (ScopeUse.Foreign d) s sequence →
        ∀ {id here}, s.snapshots.get? id = some here → here.directory = d →
          s.Spares (s.uses sequence) id) ∧
      ∀ {d sequence}, Obeys (ScopeUse.Within d) s sequence →
        ∀ {id here}, s.snapshots.get? id = some here →
          here.directory = s.directories.parent d → s.Spares (s.uses sequence) id := by
  have sound := reachable.sound
  have rooted := reachable.rooted
  refine ⟨?_, ?_, ?_⟩
  · intro origin s' id created name other
    have after : (ScopeUse.enterDirectory origin).apply s = s' := by rw [ScopeUse.apply, created]
    have rooted' := after ▸ (reachable.use (.enterDirectory origin)).rooted
    obtain ⟨parent, found, -⟩ := createDirectoryCases created
    have kept := (sparesCreateDirectory rooted rooted' sound found created).definition name
    exact ⟨(definitionCreateDirectory rooted sound created other).trans kept.symm, kept⟩
  · intro d sequence obeys id here live inside
    exact sparesUses (fun foreign => foreign) reachable obeys live inside
  · intro d sequence obeys id here live outside
    have different : d ≠ here.directory := by
      intro same
      rw [same] at outside
      exact notOwnParent sound rooted live outside.symm
    exact sparesUses (fun within => within.foreign different) reachable obeys live rfl

def twoDirectories : Scopes :=
  initial.uses [.edit 1 (.define "x" "1"), .enterDirectory 1, .edit 2 (.define "x" "2"),
    .enter 2 (.functionCall "f"), .edit 3 (.define "y" "3")]

def usesOutside : List ScopeUse :=
  [.edit 1 (.undefine "x"), .enter 1 .variableScope, .edit 4 (.raise "x" (some "4")),
    .enterDirectory 4, .edit 5 (.raise "x" none), .leave 4, .edit 9 (.define "x" "9")]

def usesInside : List ScopeUse := [.edit 3 (.raise "x" (some "5")), .leave 3, .edit 2 (.undefine "y")]

theorem twoDirectoriesKeepApart : twoDirectories.Reachable ∧
    Obeys (ScopeUse.Foreign 2) twoDirectories usesOutside ∧
    Obeys (ScopeUse.Within 2) twoDirectories usesInside ∧
    (∃ s' id, twoDirectories.createDirectory 3 = .ok (s', id) ∧
      s'.definition? id "y" = s'.definition? 3 "y") ∧
    twoDirectories.Spares (twoDirectories.uses usesOutside) 3 ∧
    twoDirectories.Spares (twoDirectories.uses usesInside) 1 := by
  have reachable : twoDirectories.Reachable := Reachable.initial.uses _
  have apart := directoriesKeepApart reachable
  have outside : Obeys (ScopeUse.Foreign 2) twoDirectories usesOutside := by decide +kernel
  have inside : Obeys (ScopeUse.Within 2) twoDirectories usesInside := by decide +kernel
  have function : (twoDirectories.snapshots.get? 3).map Snapshot.directory = some 2 := by
    decide +kernel
  have top : (twoDirectories.snapshots.get? 1).map Snapshot.directory =
      some (twoDirectories.directories.parent 2) := by decide +kernel
  obtain ⟨call, live, ofCall⟩ := Option.map_eq_some_iff.mp function
  obtain ⟨base, above, ofBase⟩ := Option.map_eq_some_iff.mp top
  have created : ∃ s' id, twoDirectories.createDirectory 3 = .ok (s', id) :=
    ⟨_, _, createDirectoryOf live⟩
  obtain ⟨s', id, created⟩ := created
  exact ⟨reachable, outside, inside,
    ⟨s', id, created, (apart.1 created "y" (by decide)).1⟩,
    apart.2.1 outside live ofCall, apart.2.2 inside above ofBase⟩

end Scopes
end CMakeScript
