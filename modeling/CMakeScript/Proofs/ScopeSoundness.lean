import CMakeScript.Proofs.ScopeTree
/-! What holds of the tree of snapshots however it is used, with names given out long ago and with
requests that are refused. A frame or list file that a scope has for itself is younger than those of
every older snapshot, so dropping it with the scope takes nothing from anyone else. -/
namespace CMakeScript
namespace ScopeTree

structure Placed (t : ScopeTree) (p : Snapshot) : Prop where
  frame : p.frame ≤ t.frames.size
  parentFrame : p.parentFrame < p.frame
  rootFrame : p.rootFrame < p.frame
  listFileNamed : 0 < p.listFile
  listFile : p.listFile ≤ t.listFiles.size
  directory : t.directories.contains p.directory = true

def Younger (t : ScopeTree) (key : Snapshot → Nat) : Prop :=
  ∀ {id up p q}, t.snapshots.node? id = some (up, p) → p.keep = false →
    t.snapshots.get? up = some q → key p ≠ key q →
    ∀ {older r}, older < id → t.snapshots.get? older = some r → key r < key p

structure Sound (t : ScopeTree) : Prop where
  base : ∃ p, t.snapshots.node? 1 = some (0, p) ∧ p.keep = true
  above : ∀ {id up p}, t.snapshots.node? id = some (up, p) → up < id
  placed : ∀ {id p}, t.snapshots.get? id = some p → t.Placed p
  nested : ∀ {id up p}, t.snapshots.node? id = some (up, p) → p.keep = false →
    ∃ q, t.snapshots.get? up = some q ∧ q.directory = p.directory
  current : ∀ {d id children}, t.directories.get? d = some (id, children) →
    ∃ p, t.snapshots.get? id = some p ∧ p.directory = d
  children : ∀ {d id children}, t.directories.get? d = some (id, children) →
    ∀ child ∈ children, ∃ p, t.snapshots.get? child = some p ∧ p.keep = true
  ownFrame : t.Younger Snapshot.frame
  ownListFile : t.Younger Snapshot.listFile

def inner (t : ScopeTree) (origin : Nat) (parent : Snapshot) (kind : SnapshotKind)
    (keep ownFile ownFrame : Bool) : Snapshot :=
  { parent with
    kind := kind,
    keep := keep,
    listFile := if ownFile then t.listFiles.size + 1 else parent.listFile,
    scopeParent := if ownFrame then origin else parent.scopeParent,
    parentFrame := if ownFrame then parent.frame else parent.parentFrame,
    frame := if ownFrame then t.frames.size + 1 else parent.frame }

def enter (t : ScopeTree) (origin : Nat) (parent : Snapshot) (kind : SnapshotKind)
    (keep ownFile ownFrame : Bool) : ScopeTree :=
  { snapshots := (t.snapshots.push origin (t.inner origin parent kind keep ownFile ownFrame)).1,
    frames := if ownFrame then (t.frames.push parent.frame ()).1 else t.frames,
    listFiles := if ownFile then (t.listFiles.push parent.listFile ()).1 else t.listFiles,
    directories := t.directories.modify parent.directory fun (_, children) =>
      (t.snapshots.size + 1, children) }

def directoryPlace (t : ScopeTree) (origin : Nat) (parent : Snapshot) : Snapshot :=
  { kind := .directory, keep := true, scopeParent := origin, directoryParent := origin,
    directory := t.directories.size + 1, listFile := t.listFiles.size + 1,
    frame := t.frames.size + 1, parentFrame := parent.frame, rootFrame := parent.frame,
    policies := 0, policyRoot := 0, policyScope := 0 }

def enterDirectory (t : ScopeTree) (origin : Nat) (parent : Snapshot) : ScopeTree :=
  { snapshots := (t.snapshots.push origin (t.directoryPlace origin parent)).1,
    frames := (t.frames.push parent.frame ()).1,
    listFiles := (t.listFiles.push parent.listFile ()).1,
    directories := ((t.directories.push parent.directory (t.snapshots.size + 1, [])).1).modify
      parent.directory fun (current, children) => (current, children ++ [t.snapshots.size + 1]) }

def leave (t : ScopeTree) (id up : Nat) (inner outer : Snapshot) : ScopeTree :=
  let directories := t.directories.modify outer.directory fun (_, children) => (up, children)
  if inner.keep || !t.snapshots.isLast id then { t with directories }
  else
    { snapshots := (t.snapshots.pop id).1,
      frames := if inner.frame != outer.frame && t.frames.isLast inner.frame then
          (t.frames.pop inner.frame).1
        else t.frames,
      listFiles := if inner.listFile != outer.listFile && t.listFiles.isLast inner.listFile then
          (t.listFiles.pop inner.listFile).1
        else t.listFiles,
      directories }

theorem Placed.mono {t t' : ScopeTree} {p : Snapshot} (h : t.Placed p)
    (frames : t.frames.size ≤ t'.frames.size) (listFiles : t.listFiles.size ≤ t'.listFiles.size)
    (directories : t.directories.size ≤ t'.directories.size) : t'.Placed p where
  frame := Nat.le_trans h.frame frames
  parentFrame := h.parentFrame
  rootFrame := h.rootFrame
  listFileNamed := h.listFileNamed
  listFile := Nat.le_trans h.listFile listFiles
  directory := by
    have bounds := Arena.containsIff.mp h.directory
    exact Arena.containsIff.mpr ⟨bounds.1, Nat.le_trans bounds.2 directories⟩

section Enter

variable {t : ScopeTree} {origin : Nat} {parent : Snapshot} {kind : SnapshotKind}
  {keep ownFile ownFrame : Bool}

theorem sizeFramesEnter : (t.enter origin parent kind keep ownFile ownFrame).frames.size =
    t.frames.size + if ownFrame then 1 else 0 := by
  cases ownFrame <;> simp [enter]

theorem sizeListFilesEnter : (t.enter origin parent kind keep ownFile ownFrame).listFiles.size =
    t.listFiles.size + if ownFile then 1 else 0 := by
  cases ownFile <;> simp [enter]

theorem nodeEnter {id up : Nat} {p : Snapshot}
    (found : (t.enter origin parent kind keep ownFile ownFrame).snapshots.node? id = some (up, p)) :
    (id = t.snapshots.size + 1 ∧ up = origin ∧
        p = t.inner origin parent kind keep ownFile ownFrame) ∨
      (id ≤ t.snapshots.size ∧ t.snapshots.node? id = some (up, p)) := by
  rw [enter, Arena.nodePush] at found
  split_ifs at found with new
  · cases found
    exact .inl ⟨new, rfl, rfl⟩
  · exact .inr ⟨(Arena.nodeBounds found).2, found⟩

theorem getEnterOld {id : Nat} {p : Snapshot} (found : t.snapshots.get? id = some p) :
    (t.enter origin parent kind keep ownFile ownFrame).snapshots.get? id = some p := by
  rw [enter, Arena.getPush, if_neg (by have := (Arena.getBounds found).2; omega), found]

theorem getEnterNew : (t.enter origin parent kind keep ownFile ownFrame).snapshots.get?
    (t.snapshots.size + 1) = some (t.inner origin parent kind keep ownFile ownFrame) := by
  rw [enter, Arena.getPush, if_pos rfl]

theorem placedInner (sound : t.Sound) (found : t.snapshots.get? origin = some parent) :
    (t.enter origin parent kind keep ownFile ownFrame).Placed
      (t.inner origin parent kind keep ownFile ownFrame) := by
  obtain ⟨frame, parentFrame, rootFrame, named, listFile, directory⟩ := sound.placed found
  constructor
  · rw [sizeFramesEnter]
    cases ownFrame <;> simp [inner, frame]
  · cases ownFrame <;> simp [inner] <;> omega
  · cases ownFrame <;> simp [inner] <;> omega
  · cases ownFile
    · simpa [inner] using named
    · simp [inner]
  · rw [sizeListFilesEnter]
    cases ownFile <;> simp [inner, listFile]
  · rw [Arena.containsIff] at directory ⊢
    simpa [enter, inner] using directory

theorem Younger.enter {key : Snapshot → Nat} (younger : t.Younger key)
    (above : ∀ {id up p}, t.snapshots.node? id = some (up, p) → up < id)
    (found : t.snapshots.get? origin = some parent)
    (new : key (t.inner origin parent kind keep ownFile ownFrame) ≠ key parent →
      ∀ {older r}, t.snapshots.get? older = some r →
        key r < key (t.inner origin parent kind keep ownFile ownFrame)) :
    (t.enter origin parent kind keep ownFile ownFrame).Younger key := by
  intro id up p q h passing outer differs older r before live
  have olderLive : t.snapshots.get? older = some r := by
    obtain ⟨rfl, -, -⟩ | ⟨-, live⟩ := nodeEnter (Arena.getIffNode.mp live)
    · have bound := (Arena.nodeBounds h).2
      simp [ScopeTree.enter] at bound
      omega
    · exact Arena.getOfNode live
  obtain ⟨rfl, rfl, rfl⟩ | ⟨bound, h⟩ := nodeEnter h
  · rw [getEnterOld found] at outer
    cases outer
    exact new differs olderLive
  · obtain ⟨rfl, -, -⟩ | ⟨-, outer⟩ := nodeEnter (Arena.getIffNode.mp outer)
    · have := above h
      omega
    · exact younger h passing (Arena.getOfNode outer) differs before olderLive

theorem childrenBefore {c : Prop} [Decidable c] {entry : Option (Nat × List Nat)} {id current : Nat}
    {children : List Nat}
    (found : (if c then entry.map fun (_, children) => (id, children) else entry) =
      some (current, children)) : ∃ before, entry = some (before, children) := by
  split_ifs at found
  · obtain ⟨⟨before, _⟩, there, same⟩ := Option.map_eq_some_iff.mp found
    cases same
    exact ⟨before, there⟩
  · exact ⟨current, found⟩

theorem Sound.enter (sound : t.Sound) (found : t.snapshots.get? origin = some parent)
    (kind : SnapshotKind) (keep ownFile ownFrame : Bool) :
    (t.enter origin parent kind keep ownFile ownFrame).Sound := by
  have known := (Arena.getBounds found).2
  constructor
  case base =>
    obtain ⟨p, first, kept⟩ := sound.base
    refine ⟨p, ?_, kept⟩
    rw [ScopeTree.enter, Arena.nodePushOld (Arena.nodeBounds first).2, first]
  case above =>
    intro id up p h
    obtain ⟨rfl, rfl, -⟩ | ⟨-, h⟩ := nodeEnter h
    · omega
    · exact sound.above h
  case placed =>
    intro id p h
    obtain ⟨rfl, -, rfl⟩ | ⟨-, h⟩ := nodeEnter (Arena.getIffNode.mp h)
    · exact placedInner sound found
    · refine (sound.placed (Arena.getOfNode h)).mono ?_ ?_ ?_
      · rw [sizeFramesEnter]; omega
      · rw [sizeListFilesEnter]; omega
      · simp [ScopeTree.enter]
  case nested =>
    intro id up p h passing
    obtain ⟨-, rfl, rfl⟩ | ⟨-, h⟩ := nodeEnter h
    · exact ⟨parent, getEnterOld found, rfl⟩
    · obtain ⟨q, above, same⟩ := sound.nested h passing
      exact ⟨q, getEnterOld above, same⟩
  case current =>
    intro d id children h
    rw [ScopeTree.enter, Arena.getModify] at h
    split_ifs at h with here
    · obtain ⟨⟨_, _⟩, _, h⟩ := Option.map_eq_some_iff.mp h
      cases h
      exact ⟨_, getEnterNew, here.symm⟩
    · obtain ⟨p, live, inside⟩ := sound.current h
      exact ⟨p, getEnterOld live, inside⟩
  case children =>
    intro d id children h child member
    rw [ScopeTree.enter, Arena.getModify] at h
    obtain ⟨_, before⟩ := childrenBefore h
    obtain ⟨p, live, kept⟩ := sound.children before child member
    exact ⟨p, getEnterOld live, kept⟩
  case ownFrame =>
    refine Younger.enter sound.ownFrame sound.above found fun differs _ _ live => ?_
    have bound := (sound.placed live).frame
    cases ownFrame
    · simp [inner] at differs
    · simp only [inner, if_true]
      omega
  case ownListFile =>
    refine Younger.enter sound.ownListFile sound.above found fun differs _ _ live => ?_
    have bound := (sound.placed live).listFile
    cases ownFile
    · simp [inner] at differs
    · simp only [inner, if_true]
      omega

end Enter

section EnterDirectory

variable {t : ScopeTree} {origin : Nat} {parent : Snapshot}

theorem nodeEnterDirectory {id up : Nat} {p : Snapshot}
    (found : (t.enterDirectory origin parent).snapshots.node? id = some (up, p)) :
    (id = t.snapshots.size + 1 ∧ up = origin ∧ p = t.directoryPlace origin parent) ∨
      (id ≤ t.snapshots.size ∧ t.snapshots.node? id = some (up, p)) := by
  rw [enterDirectory, Arena.nodePush] at found
  split_ifs at found with new
  · cases found
    exact .inl ⟨new, rfl, rfl⟩
  · exact .inr ⟨(Arena.nodeBounds found).2, found⟩

theorem getEnterDirectoryOld {id : Nat} {p : Snapshot} (found : t.snapshots.get? id = some p) :
    (t.enterDirectory origin parent).snapshots.get? id = some p := by
  rw [enterDirectory, Arena.getPush, if_neg (by have := (Arena.getBounds found).2; omega), found]

theorem getEnterDirectoryNew : (t.enterDirectory origin parent).snapshots.get?
    (t.snapshots.size + 1) = some (t.directoryPlace origin parent) := by
  rw [enterDirectory, Arena.getPush, if_pos rfl]

theorem directoryEnterDirectory {d id : Nat} {children : List Nat}
    (found : (t.enterDirectory origin parent).directories.get? d = some (id, children)) :
    (d = t.directories.size + 1 ∧ id = t.snapshots.size + 1 ∧
        ∀ child ∈ children, child = t.snapshots.size + 1) ∨
      ∃ before, t.directories.get? d = some (id, before) ∧
        ∀ child ∈ children, child ∈ before ∨ child = t.snapshots.size + 1 := by
  rw [enterDirectory, Arena.getModify, Arena.getPush] at found
  by_cases new : d = t.directories.size + 1
  · left
    split_ifs at found <;> cases found <;> simp [new]
  · right
    rw [if_neg new] at found
    split_ifs at found
    · obtain ⟨⟨current, before⟩, old, found⟩ := Option.map_eq_some_iff.mp found
      cases found
      exact ⟨before, old, by simp⟩
    · exact ⟨children, found, fun _ member => .inl member⟩

theorem placedDirectory (sound : t.Sound) (found : t.snapshots.get? origin = some parent) :
    (t.enterDirectory origin parent).Placed (t.directoryPlace origin parent) := by
  have bound := (sound.placed found).frame
  constructor
  · simp [enterDirectory, directoryPlace]
  · simp only [directoryPlace]
    omega
  · simp only [directoryPlace]
    omega
  · simp [directoryPlace]
  · simp [enterDirectory, directoryPlace]
  · rw [Arena.containsIff]
    simp [enterDirectory, directoryPlace]

theorem Younger.enterDirectory {key : Snapshot → Nat} (younger : t.Younger key)
    (above : ∀ {id up p}, t.snapshots.node? id = some (up, p) → up < id) :
    (t.enterDirectory origin parent).Younger key := by
  intro id up p q h passing outer differs older r before live
  obtain ⟨rfl, rfl, rfl⟩ | ⟨bound, h⟩ := nodeEnterDirectory h
  · simp [directoryPlace] at passing
  · obtain ⟨rfl, -, -⟩ | ⟨-, outer⟩ := nodeEnterDirectory (Arena.getIffNode.mp outer)
    · have := above h
      omega
    · obtain ⟨rfl, -, -⟩ | ⟨-, live⟩ := nodeEnterDirectory (Arena.getIffNode.mp live)
      · omega
      · exact younger h passing (Arena.getOfNode outer) differs before (Arena.getOfNode live)

theorem Sound.enterDirectory (sound : t.Sound) (found : t.snapshots.get? origin = some parent) :
    (t.enterDirectory origin parent).Sound := by
  have known := (Arena.getBounds found).2
  constructor
  case base =>
    obtain ⟨p, first, kept⟩ := sound.base
    refine ⟨p, ?_, kept⟩
    rw [ScopeTree.enterDirectory, Arena.nodePushOld (Arena.nodeBounds first).2, first]
  case above =>
    intro id up p h
    obtain ⟨rfl, rfl, -⟩ | ⟨-, h⟩ := nodeEnterDirectory h
    · omega
    · exact sound.above h
  case placed =>
    intro id p h
    obtain ⟨rfl, -, rfl⟩ | ⟨-, h⟩ := nodeEnterDirectory (Arena.getIffNode.mp h)
    · exact placedDirectory sound found
    · refine (sound.placed (Arena.getOfNode h)).mono ?_ ?_ ?_ <;>
        simp [ScopeTree.enterDirectory]
  case nested =>
    intro id up p h passing
    obtain ⟨-, -, rfl⟩ | ⟨-, h⟩ := nodeEnterDirectory h
    · simp [directoryPlace] at passing
    · obtain ⟨q, outer, same⟩ := sound.nested h passing
      exact ⟨q, getEnterDirectoryOld outer, same⟩
  case current =>
    intro d id children h
    obtain ⟨rfl, rfl, -⟩ | ⟨before, h, -⟩ := directoryEnterDirectory h
    · exact ⟨_, getEnterDirectoryNew, rfl⟩
    · obtain ⟨p, live, inside⟩ := sound.current h
      exact ⟨p, getEnterDirectoryOld live, inside⟩
  case children =>
    intro d id children h child member
    have new : child = t.snapshots.size + 1 → ∃ p, (t.enterDirectory origin parent).snapshots.get?
        child = some p ∧ p.keep = true := by
      rintro rfl
      exact ⟨_, getEnterDirectoryNew, rfl⟩
    obtain ⟨-, -, all⟩ | ⟨before, h, all⟩ := directoryEnterDirectory h
    · exact new (all child member)
    · rcases all child member with member | same
      · obtain ⟨p, live, kept⟩ := sound.children h child member
        exact ⟨p, getEnterDirectoryOld live, kept⟩
      · exact new same
  case ownFrame => exact Younger.enterDirectory sound.ownFrame sound.above
  case ownListFile => exact Younger.enterDirectory sound.ownListFile sound.above

end EnterDirectory

section Leave

variable {t : ScopeTree} {id up : Nat} {inner outer : Snapshot}

theorem nodeLeave {other : Nat} : (t.leave id up inner outer).snapshots.node? other =
    if (inner.keep || !t.snapshots.isLast id) = false ∧ other = id then none
    else t.snapshots.node? other := by
  unfold leave
  cases stays : inner.keep || !t.snapshots.isLast id with
  | true => simp
  | false =>
    have last : t.snapshots.isLast id = true := by
      simpa using (Bool.or_eq_false_iff.mp stays).2
    simp [Arena.nodePop last]

theorem directoryLeave {d : Nat} : (t.leave id up inner outer).directories.get? d =
    if d = outer.directory then (t.directories.get? d).map fun (_, children) => (up, children)
    else t.directories.get? d := by
  unfold leave
  split_ifs <;> simp [Arena.getModify, *]

theorem getLeaveOf {other : Nat} {p : Snapshot} (found : t.snapshots.get? other = some p)
    (stays : (inner.keep || !t.snapshots.isLast id) = false → other ≠ id) :
    (t.leave id up inner outer).snapshots.get? other = some p := by
  rw [Arena.get?, nodeLeave, if_neg fun gone => stays gone.1 gone.2, ← Arena.get?, found]

theorem nodeBeforeLeave {other up' : Nat} {p : Snapshot}
    (found : (t.leave id up inner outer).snapshots.node? other = some (up', p)) :
    t.snapshots.node? other = some (up', p) ∧
      ((inner.keep || !t.snapshots.isLast id) = false → other < id) := by
  rw [nodeLeave] at found
  split_ifs at found with gone
  refine ⟨found, fun dropped => ?_⟩
  have last : t.snapshots.isLast id = true := by
    simpa using (Bool.or_eq_false_iff.mp dropped).2
  have different : other ≠ id := fun same => gone ⟨dropped, same⟩
  have bound := (Arena.nodeBounds found).2
  have := (Arena.isLastIff.mp last).2
  omega

theorem snapshotsLeave (t : ScopeTree) (id up : Nat) (inner outer : Snapshot) :
    (t.leave id up inner outer).snapshots =
      if (inner.keep || !t.snapshots.isLast id) = false then (t.snapshots.pop id).1
      else t.snapshots := by
  unfold leave
  cases inner.keep || !t.snapshots.isLast id <;> simp

theorem framesLeave (t : ScopeTree) (id up : Nat) (inner outer : Snapshot) :
    (t.leave id up inner outer).frames =
      if (inner.keep || !t.snapshots.isLast id) = false ∧ inner.frame ≠ outer.frame ∧
          t.frames.isLast inner.frame = true then
        (t.frames.pop inner.frame).1
      else t.frames := by
  unfold leave
  cases inner.keep || !t.snapshots.isLast id <;> simp

theorem listFilesLeave (t : ScopeTree) (id up : Nat) (inner outer : Snapshot) :
    (t.leave id up inner outer).listFiles =
      if (inner.keep || !t.snapshots.isLast id) = false ∧ inner.listFile ≠ outer.listFile ∧
          t.listFiles.isLast inner.listFile = true then
        (t.listFiles.pop inner.listFile).1
      else t.listFiles := by
  unfold leave
  cases inner.keep || !t.snapshots.isLast id <;> simp

@[simp] theorem sizeDirectoriesLeave (t : ScopeTree) (id up : Nat) (inner outer : Snapshot) :
    (t.leave id up inner outer).directories.size = t.directories.size := by
  unfold leave
  split_ifs <;> simp

theorem Placed.leave {p : Snapshot} (placed : t.Placed p)
    (younger : (inner.keep || !t.snapshots.isLast id) = false →
      (inner.frame ≠ outer.frame → p.frame < inner.frame) ∧
        (inner.listFile ≠ outer.listFile → p.listFile < inner.listFile)) :
    (t.leave id up inner outer).Placed p := by
  obtain ⟨frame, parentFrame, rootFrame, named, listFile, directory⟩ := placed
  refine ⟨?_, parentFrame, rootFrame, named, ?_, ?_⟩
  · rw [framesLeave]
    split_ifs with dropped
    · have := (younger dropped.1).1 dropped.2.1
      have := (Arena.isLastIff.mp dropped.2.2).2
      rw [Arena.sizePop dropped.2.2]
      omega
    · exact frame
  · rw [listFilesLeave]
    split_ifs with dropped
    · have := (younger dropped.1).2 dropped.2.1
      have := (Arena.isLastIff.mp dropped.2.2).2
      rw [Arena.sizePop dropped.2.2]
      omega
    · exact listFile
  · rw [Arena.containsIff] at directory ⊢
    simpa using directory

theorem Younger.leave {key : Snapshot → Nat} (younger : t.Younger key) :
    (t.leave id up inner outer).Younger key := by
  intro other up' p q h passing above differs older r before live
  exact younger (nodeBeforeLeave h).1 passing
    (Arena.getOfNode (nodeBeforeLeave (Arena.getIffNode.mp above)).1) differs before
    (Arena.getOfNode (nodeBeforeLeave (Arena.getIffNode.mp live)).1)

theorem Sound.leave (sound : t.Sound) (here : t.snapshots.node? id = some (up, inner))
    (outside : t.snapshots.get? up = some outer) : (t.leave id up inner outer).Sound := by
  have below := sound.above here
  constructor
  case base =>
    obtain ⟨p, first, kept⟩ := sound.base
    refine ⟨p, ?_, kept⟩
    rw [nodeLeave, if_neg, first]
    rintro ⟨dropped, rfl⟩
    rw [here] at first
    cases first
    simp [kept] at dropped
  case above => exact fun h => sound.above (nodeBeforeLeave h).1
  case placed =>
    intro other p h
    obtain ⟨found, before⟩ := nodeBeforeLeave (Arena.getIffNode.mp h)
    refine (sound.placed (Arena.getOfNode found)).leave fun dropped => ?_
    have passing := (Bool.or_eq_false_iff.mp dropped).1
    exact ⟨fun differs => sound.ownFrame here passing outside differs (before dropped)
        (Arena.getOfNode found),
      fun differs => sound.ownListFile here passing outside differs (before dropped)
        (Arena.getOfNode found)⟩
  case nested =>
    intro other up' p h passing
    obtain ⟨found, before⟩ := nodeBeforeLeave h
    obtain ⟨q, above, same⟩ := sound.nested found passing
    have smaller := sound.above found
    refine ⟨q, getLeaveOf above fun dropped => ?_, same⟩
    have := before dropped
    omega
  case current =>
    intro d current children h
    rw [directoryLeave] at h
    split_ifs at h with inside
    · obtain ⟨⟨_, _⟩, _, h⟩ := Option.map_eq_some_iff.mp h
      cases h
      exact ⟨outer, getLeaveOf outside fun _ => by omega, inside.symm⟩
    · obtain ⟨p, live, there⟩ := sound.current h
      refine ⟨p, getLeaveOf live ?_, there⟩
      rintro dropped rfl
      rw [Arena.getOfNode here] at live
      cases live
      obtain ⟨q, above, same⟩ := sound.nested here (Bool.or_eq_false_iff.mp dropped).1
      rw [outside] at above
      cases above
      exact inside (there.symm.trans same.symm)
  case children =>
    intro d current children h child member
    rw [directoryLeave] at h
    obtain ⟨_, before⟩ := childrenBefore h
    obtain ⟨p, live, kept⟩ := sound.children before child member
    refine ⟨p, getLeaveOf live ?_, kept⟩
    rintro dropped rfl
    rw [Arena.getOfNode here] at live
    cases live
    simp [kept] at dropped
  case ownFrame => exact Younger.leave sound.ownFrame
  case ownListFile => exact Younger.leave sound.ownListFile

end Leave

end ScopeTree
end CMakeScript
