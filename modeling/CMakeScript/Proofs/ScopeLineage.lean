import CMakeScript.Proofs.Ancestors
import CMakeScript.Proofs.ScopeUse
/-! The frames that a snapshot looks names up in. They begin with the frame of the snapshot and end
below the frame that bounds its directory, and no two directories have one in common. -/
namespace CMakeScript

namespace Arena

variable {α : Type}

theorem parentPush (a : Arena α) (up : Nat) (value : α) (id : Nat) :
    (a.push up value).1.parent id = if id = a.size + 1 then up else a.parent id := by
  unfold parent
  rw [nodePush]
  split_ifs <;> rfl

theorem parentMap {β : Type} (f : α → β) (a : Arena α) (id : Nat) :
    (a.map f).parent id = a.parent id := by
  unfold parent
  rw [nodeMap]
  cases a.node? id <;> rfl

@[simp] theorem parentModify (a : Arena α) (place : Nat) (f : α → α) (id : Nat) :
    (a.modify place f).parent id = a.parent id := by
  unfold parent
  rw [nodeModify]
  split_ifs
  · cases a.node? id <;> rfl
  · rfl

end Arena

namespace ScopeTree

def lineage (t : ScopeTree) (p : Snapshot) : List Nat :=
  ((t.frames.ancestors p.frame).map Prod.fst).takeWhile fun id => id != p.rootFrame

structure Hung (t : ScopeTree) (p : Snapshot) : Prop where
  frameAbove : t.frames.node? p.frame = some (p.parentFrame, ())
  root : p.rootFrame = 0 ∨ p.rootFrame ∈ (t.frames.ancestors p.parentFrame).map Prod.fst
  top : p.scopeParent = p.directoryParent ↔ p.parentFrame = p.rootFrame
  outside : p.directoryParent = 0 ∧ t.directories.parent p.directory = 0 ∨
    ∃ q, t.snapshots.get? p.directoryParent = some q ∧
      t.directories.parent p.directory = q.directory

structure Rooted (t : ScopeTree) : Prop where
  frames : t.frames.Falling
  directories : t.directories.Falling
  originOlder : ∀ {id p}, t.snapshots.get? id = some p → p.directoryParent < id
  hung : ∀ {id p}, t.snapshots.get? id = some p → t.Hung p
  apart : ∀ {id other p q}, t.snapshots.get? id = some p → t.snapshots.get? other = some q →
    ∀ {frame}, frame ∈ t.lineage p → frame ∈ t.lineage q → p.directory = q.directory

theorem lineageOlder {t : ScopeTree} (falling : t.frames.Falling) {p : Snapshot} :
    ∀ frame ∈ t.lineage p, frame ≤ p.frame := by
  intro frame member
  obtain ⟨node, above, rfl⟩ := List.mem_map.mp ((List.takeWhile_sublist _).subset member)
  exact Arena.ancestorsOlder falling node above

theorem lineageAgree {t t' : ScopeTree} (falling : t.frames.Falling) (falling' : t'.frames.Falling)
    {p : Snapshot} (agree : ∀ i ≤ p.frame, t'.frames.node? i = t.frames.node? i) :
    t'.lineage p = t.lineage p := by
  rw [lineage, Arena.ancestorsAgree falling falling' agree, lineage]

theorem lineageOf {t : ScopeTree} (falling : t.frames.Falling) {p : Snapshot}
    (here : t.frames.node? p.frame = some (p.parentFrame, ())) (below : p.rootFrame < p.frame) :
    t.lineage p = p.frame ::
      ((t.frames.ancestors p.parentFrame).map Prod.fst).takeWhile fun id => id != p.rootFrame := by
  have different : (p.frame != p.rootFrame) = true := by
    simp
    omega
  rw [lineage, Arena.ancestorsOfNode falling here, List.map_cons, List.takeWhile_cons, if_pos different]

theorem Hung.rootOlder {t : ScopeTree} {p : Snapshot} (hung : t.Hung p)
    (falling : t.frames.Falling) : p.rootFrame ≤ p.parentFrame := by
  obtain zero | above := hung.root
  · omega
  · obtain ⟨node, above, same⟩ := List.mem_map.mp above
    rw [← same]
    exact Arena.ancestorsOlder falling node above

theorem Hung.frameMember {t : ScopeTree} {p : Snapshot} (hung : t.Hung p)
    (falling : t.frames.Falling) : p.frame ∈ t.lineage p := by
  have above := falling hung.frameAbove
  have older := hung.rootOlder falling
  rw [lineageOf falling hung.frameAbove (by omega)]
  exact List.mem_cons_self

theorem Hung.parentFrameMember {t : ScopeTree} {p : Snapshot} (hung : t.Hung p)
    (falling : t.frames.Falling) (below : p.parentFrame ≠ p.rootFrame) :
    p.parentFrame ∈ t.lineage p := by
  have above := falling hung.frameAbove
  have older := hung.rootOlder falling
  have bound := (Arena.nodeBounds hung.frameAbove).2
  have live : t.frames.contains p.parentFrame = true :=
    Arena.containsIff.mpr ⟨by omega, by omega⟩
  obtain ⟨⟨up, value⟩, found⟩ := Option.isSome_iff_exists.mp live
  rw [lineageOf falling hung.frameAbove (by omega),
    Arena.ancestorsOfNode falling found, List.map_cons, List.takeWhile_cons,
    if_pos (by simpa using below)]
  exact List.mem_cons_of_mem _ List.mem_cons_self

theorem Hung.agree {t t' : ScopeTree} {p : Snapshot} (hung : t.Hung p)
    (falling : t.frames.Falling) (falling' : t'.frames.Falling)
    (frames : ∀ i ≤ p.frame, t'.frames.node? i = t.frames.node? i)
    (directory : t'.directories.parent p.directory = t.directories.parent p.directory)
    (origin : ∀ {q}, t.snapshots.get? p.directoryParent = some q →
      t'.snapshots.get? p.directoryParent = some q) : t'.Hung p where
  frameAbove := (frames _ (Nat.le_refl _)).trans hung.frameAbove
  root := by
    have above := falling hung.frameAbove
    rw [Arena.ancestorsAgree falling falling' fun i bound => frames i (by omega)]
    exact hung.root
  top := hung.top
  outside := by
    rw [directory]
    obtain base | ⟨q, live, same⟩ := hung.outside
    · exact .inl base
    · exact .inr ⟨q, origin live, same⟩

theorem Rooted.opened {t t' : ScopeTree} (rooted : t.Rooted) (sound : t.Sound) {new : Snapshot}
    (nodes : ∀ {id p}, t'.snapshots.get? id = some p →
      id = t.snapshots.size + 1 ∧ p = new ∨ t.snapshots.get? id = some p)
    (kept : ∀ {id p}, t.snapshots.get? id = some p → t'.snapshots.get? id = some p)
    (frames : t'.frames.Falling)
    (agree : ∀ i ≤ t.frames.size, t'.frames.node? i = t.frames.node? i)
    (directories : t'.directories.Falling)
    (parents : ∀ d, t.directories.contains d = true →
      t'.directories.parent d = t.directories.parent d)
    (originOlder : new.directoryParent ≤ t.snapshots.size) (hung : t'.Hung new)
    (apart : ∀ {id q}, t.snapshots.get? id = some q → ∀ {frame}, frame ∈ t'.lineage new →
      frame ∈ t.lineage q → new.directory = q.directory) : t'.Rooted := by
  have same : ∀ {id p}, t.snapshots.get? id = some p → ∀ i ≤ p.frame,
      t'.frames.node? i = t.frames.node? i :=
    fun live i bound => agree i (Nat.le_trans bound (sound.placed live).frame)
  have old : ∀ {id p}, t.snapshots.get? id = some p → t'.lineage p = t.lineage p :=
    fun live => lineageAgree rooted.frames frames (same live)
  refine ⟨frames, directories, ?_, ?_, ?_⟩
  · intro id p h
    obtain ⟨rfl, rfl⟩ | live := nodes h
    · omega
    · exact rooted.originOlder live
  · intro id p h
    obtain ⟨-, rfl⟩ | live := nodes h
    · exact hung
    · exact (rooted.hung live).agree rooted.frames frames (same live)
        (parents _ (sound.placed live).directory) kept
  · intro id other p q hp hq frame inP inQ
    obtain ⟨-, rfl⟩ | liveP := nodes hp <;> obtain ⟨-, rfl⟩ | liveQ := nodes hq
    · rfl
    · exact apart liveQ inP (old liveQ ▸ inQ)
    · exact (apart liveP inQ (old liveP ▸ inP)).symm
    · exact rooted.apart liveP liveQ (old liveP ▸ inP) (old liveQ ▸ inQ)

section Enter

variable {t : ScopeTree} {origin : Nat} {parent : Snapshot} {kind : SnapshotKind}
  {keep ownFile ownFrame : Bool}

theorem nodeFramesEnter {i : Nat} (old : i ≤ t.frames.size) :
    (t.enter origin parent kind keep ownFile ownFrame).frames.node? i = t.frames.node? i := by
  cases ownFrame
  · rfl
  · exact Arena.nodePushOld old

theorem fallingEnter (falling : t.frames.Falling) (known : parent.frame ≤ t.frames.size) :
    (t.enter origin parent kind keep ownFile ownFrame).frames.Falling := by
  cases ownFrame
  · exact falling
  · exact Arena.fallingPush falling known ()

theorem nodeFrameInner :
    (t.enter origin parent kind keep ownFile true).frames.node? (t.frames.size + 1) =
      some (parent.frame, ()) :=
  Arena.nodePushNew ..

theorem hungInner (falling : (t.enter origin parent kind keep ownFile ownFrame).frames.Falling)
    (older : parent.directoryParent < origin)
    (hung : (t.enter origin parent kind keep ownFile ownFrame).Hung parent) :
    (t.enter origin parent kind keep ownFile ownFrame).Hung
      (t.inner origin parent kind keep ownFile ownFrame) := by
  cases ownFrame
  · exact ⟨hung.frameAbove, hung.root, hung.top, hung.outside⟩
  · refine ⟨nodeFrameInner, ?_, ?_, hung.outside⟩
    · refine hung.root.imp_right fun above => ?_
      simp only [inner, if_true]
      rw [Arena.ancestorsOfNode falling hung.frameAbove]
      exact List.mem_cons_of_mem _ above
    · have above := falling hung.frameAbove
      have := hung.rootOlder falling
      simp only [inner, if_true]
      omega

theorem lineageInner (falling : (t.enter origin parent kind keep ownFile ownFrame).frames.Falling)
    (known : parent.frame ≤ t.frames.size) (below : parent.rootFrame < parent.frame) :
    ∀ frame ∈ (t.enter origin parent kind keep ownFile ownFrame).lineage
        (t.inner origin parent kind keep ownFile ownFrame),
      frame = t.frames.size + 1 ∨
        frame ∈ (t.enter origin parent kind keep ownFile ownFrame).lineage parent := by
  intro frame member
  cases ownFrame
  · exact .inr member
  · rw [lineageOf falling nodeFrameInner (by simp [inner]; omega)] at member
    exact List.mem_cons.mp member

theorem Rooted.enter (rooted : t.Rooted) (sound : t.Sound)
    (found : t.snapshots.get? origin = some parent) (kind : SnapshotKind)
    (keep ownFile ownFrame : Bool) : (t.enter origin parent kind keep ownFile ownFrame).Rooted := by
  have placed := sound.placed found
  have falling : (t.enter origin parent kind keep ownFile ownFrame).frames.Falling :=
    fallingEnter rooted.frames placed.frame
  have agree : ∀ i ≤ parent.frame,
      (t.enter origin parent kind keep ownFile ownFrame).frames.node? i = t.frames.node? i :=
    fun i bound => nodeFramesEnter (Nat.le_trans bound placed.frame)
  have older := rooted.originOlder found
  refine rooted.opened sound ?_ getEnterOld falling (fun i bound => nodeFramesEnter bound)
    (Arena.fallingModify rooted.directories ..) (fun d _ => Arena.parentModify ..) ?_
    (hungInner falling older ?_) ?_
  · intro id p h
    obtain ⟨new, -, same⟩ | ⟨-, h⟩ := nodeEnter (Arena.getIffNode.mp h)
    · exact .inl ⟨new, same⟩
    · exact .inr (Arena.getOfNode h)
  · have bound := (Arena.getBounds found).2
    simp only [inner]
    omega
  · exact (rooted.hung found).agree rooted.frames falling agree (Arena.parentModify ..) getEnterOld
  · intro id q live frame inNew inOld
    have bound := lineageOlder rooted.frames frame inOld
    have known := (sound.placed live).frame
    obtain same | above := lineageInner falling placed.frame placed.rootFrame frame inNew
    · omega
    · rw [lineageAgree rooted.frames falling agree] at above
      have same : parent.directory = q.directory := rooted.apart found live above inOld
      exact same

end Enter

section EnterDirectory

variable {t : ScopeTree} {origin : Nat} {parent : Snapshot}

theorem Rooted.enterDirectory (rooted : t.Rooted) (sound : t.Sound)
    (found : t.snapshots.get? origin = some parent) : (t.enterDirectory origin parent).Rooted := by
  have placed := sound.placed found
  have bound := (Arena.getBounds found).2
  have inside := (Arena.containsIff.mp placed.directory).2
  have falling : (t.enterDirectory origin parent).frames.Falling :=
    Arena.fallingPush rooted.frames placed.frame ()
  have here : (t.enterDirectory origin parent).frames.node? (t.frames.size + 1) =
      some (parent.frame, ()) := Arena.nodePushNew ..
  have above : ∃ up, (t.enterDirectory origin parent).frames.node? parent.frame = some (up, ()) :=
    ⟨_, (Arena.nodePushOld placed.frame).trans (rooted.hung found).frameAbove⟩
  obtain ⟨up, above⟩ := above
  have nodes : ∀ {id p}, (t.enterDirectory origin parent).snapshots.get? id = some p →
      id = t.snapshots.size + 1 ∧ p = t.directoryPlace origin parent ∨
        t.snapshots.get? id = some p := by
    intro id p h
    obtain ⟨new, -, same⟩ | ⟨-, h⟩ := nodeEnterDirectory (Arena.getIffNode.mp h)
    · exact .inl ⟨new, same⟩
    · exact .inr (Arena.getOfNode h)
  refine rooted.opened sound nodes getEnterDirectoryOld falling
    (fun i old => Arena.nodePushOld old) ?_ ?_ bound ⟨here, ?_, ?_, ?_⟩ ?_
  · exact Arena.fallingModify (Arena.fallingPush rooted.directories inside _) ..
  · intro d known
    have := (Arena.containsIff.mp known).2
    simp only [ScopeTree.enterDirectory, Arena.parentModify, Arena.parentPush]
    rw [if_neg (by omega)]
  · right
    simp only [directoryPlace]
    rw [Arena.ancestorsOfNode falling above]
    exact List.mem_cons_self
  · simp [directoryPlace]
  · right
    refine ⟨parent, getEnterDirectoryOld found, ?_⟩
    simp [ScopeTree.enterDirectory, directoryPlace, Arena.parentPush]
  · intro id q live frame inNew inOld
    have older := lineageOlder rooted.frames frame inOld
    have known := (sound.placed live).frame
    have below : parent.frame < t.frames.size + 1 := Nat.lt_succ_of_le placed.frame
    rw [lineageOf falling here below] at inNew
    simp only [directoryPlace] at inNew
    rw [Arena.ancestorsOfNode falling above] at inNew
    simp at inNew
    omega

end EnterDirectory

section Leave

variable {t : ScopeTree} {id up : Nat} {inner outer : Snapshot}

theorem Rooted.leave (rooted : t.Rooted) (sound : t.Sound)
    (here : t.snapshots.node? id = some (up, inner)) (above : t.snapshots.get? up = some outer) :
    (t.leave id up inner outer).Rooted := by
  have falling : (t.leave id up inner outer).frames.Falling := by
    rw [framesLeave]
    split_ifs
    · exact Arena.fallingPop rooted.frames _
    · exact rooted.frames
  -- A frame goes with the scope that owns it, and the scopes that stay stand on older frames.
  have agree : ∀ {other p}, (t.leave id up inner outer).snapshots.get? other = some p →
      ∀ i ≤ p.frame, (t.leave id up inner outer).frames.node? i = t.frames.node? i := by
    intro other p live i bound
    obtain ⟨found, before⟩ := nodeBeforeLeave (Arena.getIffNode.mp live)
    rw [framesLeave]
    split_ifs with dropped
    · have younger := sound.ownFrame here (Bool.or_eq_false_iff.mp dropped.1).1 above dropped.2.1
        (before dropped.1) (Arena.getOfNode found)
      rw [Arena.nodePop dropped.2.2, if_neg (by omega)]
    · rfl
  have live : ∀ {other p}, (t.leave id up inner outer).snapshots.get? other = some p →
      t.snapshots.get? other = some p :=
    fun h => Arena.getOfNode (nodeBeforeLeave (Arena.getIffNode.mp h)).1
  have same : ∀ {other p}, (t.leave id up inner outer).snapshots.get? other = some p →
      (t.leave id up inner outer).lineage p = t.lineage p :=
    fun h => lineageAgree rooted.frames falling (agree h)
  have parents : ∀ d, (t.leave id up inner outer).directories.parent d = t.directories.parent d := by
    intro d
    unfold ScopeTree.leave
    split_ifs <;> exact Arena.parentModify ..
  refine ⟨falling, ?_, ?_, ?_, ?_⟩
  · unfold ScopeTree.leave
    split_ifs <;> exact Arena.fallingModify rooted.directories ..
  · exact fun h => rooted.originOlder (live h)
  · intro other p h
    refine (rooted.hung (live h)).agree rooted.frames falling (agree h) (parents _) fun origin => ?_
    have older := rooted.originOlder (live h)
    exact getLeaveOf origin fun dropped => by
      have := (nodeBeforeLeave (Arena.getIffNode.mp h)).2 dropped
      omega
  · intro first second p q hp hq frame inP inQ
    exact rooted.apart (live hp) (live hq) (same hp ▸ inP) (same hq ▸ inQ)

end Leave

inductive Move (t : ScopeTree) : ScopeTree → Prop where
  | stay : Move t t
  | enter {origin : Nat} {parent : Snapshot} (found : t.snapshots.get? origin = some parent)
      (kind : SnapshotKind) (keep ownFile ownFrame : Bool) :
      Move t (t.enter origin parent kind keep ownFile ownFrame)
  | enterDirectory {origin : Nat} {parent : Snapshot}
      (found : t.snapshots.get? origin = some parent) : Move t (t.enterDirectory origin parent)
  | leave {id up : Nat} {inner outer : Snapshot}
      (here : t.snapshots.node? id = some (up, inner))
      (above : t.snapshots.get? up = some outer) : Move t (t.leave id up inner outer)

theorem Rooted.move {t t' : ScopeTree} (rooted : t.Rooted) (sound : t.Sound) (move : t.Move t') :
    t'.Rooted := by
  cases move with
  | stay => exact rooted
  | enter found => exact rooted.enter sound found ..
  | enterDirectory found => exact rooted.enterDirectory sound found
  | leave here above => exact rooted.leave sound here above

end ScopeTree

theorem ScopeTree.Step.move {t t' : ScopeTree} {u : ScopeUse} (step : t.Step u t') : t.Move t' := by
  cases step with
  | still => exact .stay
  | enter o found => exact .enter found ..
  | enterDirectory found => exact .enterDirectory found
  | leave here above => exact .leave here above

theorem ScopeUse.moves (s : Scopes) (u : ScopeUse) : s.tree.Move (u.apply s).tree :=
  (u.steps s).move

theorem Scopes.rootedInitial : initial.tree.Rooted := by
  have falling : initial.tree.frames.Falling := by
    rw [treeInitial]
    intro id up value h
    obtain ⟨rfl, h⟩ := Arena.nodeSingle h
    cases h
    decide
  refine ⟨falling, ?_, ?_, ?_, ?_⟩
  · rw [treeInitial]
    intro id up value h
    obtain ⟨rfl, h⟩ := Arena.nodeSingle h
    cases h
    decide
  · rw [treeInitial]
    intro id p h
    obtain ⟨rfl, h⟩ := Arena.nodeSingle (Arena.getIffNode.mp h)
    cases h
    decide
  · rw [treeInitial]
    intro id p h
    obtain ⟨rfl, h⟩ := Arena.nodeSingle (Arena.getIffNode.mp h)
    cases h
    exact ⟨rfl, .inl rfl, by decide, .inl ⟨rfl, rfl⟩⟩
  · rw [treeInitial]
    intro id other p q hp hq frame _ _
    obtain ⟨rfl, hp⟩ := Arena.nodeSingle (Arena.getIffNode.mp hp)
    obtain ⟨rfl, hq⟩ := Arena.nodeSingle (Arena.getIffNode.mp hq)
    cases hp
    cases hq
    rfl

theorem Scopes.Reachable.rooted {s : Scopes} (reachable : s.Reachable) : s.tree.Rooted := by
  induction reachable with
  | initial => exact rootedInitial
  | use before u ih => exact ih.move before.sound (u.moves _)

namespace Scopes

def uses (s : Scopes) (sequence : List ScopeUse) : Scopes :=
  sequence.foldl ScopeUse.apply s

theorem Reachable.uses {s : Scopes} (reachable : s.Reachable) (sequence : List ScopeUse) :
    (s.uses sequence).Reachable := by
  induction sequence generalizing s with
  | nil => exact reachable
  | cons u rest ih => exact ih (reachable.use u)

structure Names (s : Scopes) (here : Snapshot) : Prop where
  directory : s.directories.contains here.directory = true
  frame : s.frames.contains here.frame = true
  listFile : s.listFiles.contains here.listFile = true
  parentFrame : here.parentFrame = 0 ∨ s.frames.contains here.parentFrame = true
  rootFrame : here.rootFrame = 0 ∨ s.frames.contains here.rootFrame = true
  rootAbove : here.rootFrame = 0 ∨ here.rootFrame ∈ (s.frames.ancestors here.frame).map Prod.fst

theorem ancestorsTree (s : Scopes) (frame : Nat) :
    (s.tree.frames.ancestors frame).map Prod.fst = (s.frames.ancestors frame).map Prod.fst := by
  simp [tree, Arena.ancestorsMap]

theorem Reachable.names {s : Scopes} (reachable : s.Reachable) {id : Nat} {here : Snapshot}
    (live : s.snapshots.get? id = some here) : s.Names here := by
  have rooted := reachable.rooted
  have inTree : s.tree.snapshots.get? id = some here.place := by simp [getTree, live]
  have placed := reachable.sound.placed inTree
  have hung := rooted.hung inTree
  have frame := placed.frame
  have parentFrame := placed.parentFrame
  have rootFrame := placed.rootFrame
  simp only [Snapshot.place, sizeTreeFrames] at frame parentFrame rootFrame
  refine ⟨?_, ?_, ?_, ?_, ?_, ?_⟩
  · simpa [tree, Arena.containsIff, Snapshot.place] using placed.directory
  · exact Arena.containsIff.mpr ⟨by omega, frame⟩
  · exact Arena.containsIff.mpr ⟨placed.listFileNamed, by simpa [Snapshot.place] using placed.listFile⟩
  · rw [Arena.containsIff]
    omega
  · rw [Arena.containsIff]
    omega
  · refine hung.root.imp_right fun above => ?_
    rw [← ancestorsTree, ← show here.place.frame = here.frame from rfl,
      Arena.ancestorsOfNode rooted.frames hung.frameAbove]
    exact List.mem_cons_of_mem _ above

theorem snapshotsNameLiveParts {s : Scopes} (reachable : s.Reachable) :
    (∀ {id here}, s.snapshots.get? id = some here → s.Names here) ∧
      ∀ {d directory}, s.directories.get? d = some directory →
        s.snapshots.contains directory.current = true ∧
          ∀ child ∈ directory.children, s.snapshots.contains child = true := by
  refine ⟨reachable.names, fun {d directory} found => ?_⟩
  have inTree : s.tree.directories.get? d = some (directory.current, directory.children) := by
    simp [directoryTree, found]
  have live : ∀ {id p}, s.tree.snapshots.get? id = some p → s.snapshots.contains id = true := by
    intro id p h
    have bounds := Arena.getBounds h
    rw [sizeTreeSnapshots] at bounds
    exact Arena.containsIff.mpr bounds
  constructor
  · obtain ⟨p, there, -⟩ := reachable.sound.current inTree
    exact live there
  · intro child member
    obtain ⟨p, there, -⟩ := reachable.sound.children inTree child member
    exact live there

def subdirectoryCall : Scopes :=
  initial.uses [.enterDirectory 1, .enter 2 (.functionCall "f"), .leave 7, .leave 2,
    .enter 3 .policyScope, .edit 4 (.raise "x" (some "1")), .leave 3, .leave 4, .leave 4]

theorem subdirectoryCallNames : subdirectoryCall.Reachable ∧
    ∃ here, subdirectoryCall.snapshots.get? 3 = some here ∧ here.frame = 3 ∧ here.rootFrame = 1 ∧
      subdirectoryCall.Names here := by
  have reachable : subdirectoryCall.Reachable := Reachable.initial.uses _
  have shape : (subdirectoryCall.snapshots.get? 3).map (fun p => (p.frame, p.rootFrame)) =
      some (3, 1) := by decide +kernel
  obtain ⟨here, live, same⟩ := Option.map_eq_some_iff.mp shape
  obtain ⟨frame, rootFrame⟩ := Prod.mk.inj same
  exact ⟨reachable, here, live, frame, rootFrame, (snapshotsNameLiveParts reachable).1 live⟩

end Scopes
end CMakeScript
