import CMakeScript.Proofs.ScopeUse
/-! Scopes that are opened and closed in pairs. Closing undoes opening: a scope that is dropped is
the last of its arenas again by then, since all that was opened inside of it is gone. Scopes that
are kept stay in the arenas, below everything that follows. -/
namespace CMakeScript

namespace ScopeTree

structure Kept (t t' : ScopeTree) : Prop where
  sound : t'.Sound
  grown : t.snapshots.size ≤ t'.snapshots.size
  node : ∀ {id}, id ≤ t.snapshots.size → t'.snapshots.node? id = t.snapshots.node? id
  directory : ∀ d, t'.directories.get? d = t.directories.get? d

structure SameSizes (t t' : ScopeTree) : Prop where
  snapshots : t'.snapshots.size = t.snapshots.size
  frames : t'.frames.size = t.frames.size
  listFiles : t'.listFiles.size = t.listFiles.size

theorem Kept.refl {t : ScopeTree} (sound : t.Sound) : t.Kept t :=
  ⟨sound, Nat.le_refl _, fun _ => rfl, fun _ => rfl⟩

theorem Kept.trans {t t' t'' : ScopeTree} (first : t.Kept t') (second : t'.Kept t'') : t.Kept t'' where
  sound := second.sound
  grown := Nat.le_trans first.grown second.grown
  node bound := (second.node (Nat.le_trans bound first.grown)).trans (first.node bound)
  directory d := (second.directory d).trans (first.directory d)

theorem SameSizes.trans {t t' t'' : ScopeTree} (first : t.SameSizes t')
    (second : t'.SameSizes t'') : t.SameSizes t'' where
  snapshots := second.snapshots.trans first.snapshots
  frames := second.frames.trans first.frames
  listFiles := second.listFiles.trans first.listFiles

section Bracket

variable {t t' : ScopeTree} {origin : Nat} {parent : Snapshot} {kind : SnapshotKind}
  {keep ownFile ownFrame : Bool}

theorem nodeInside (inside : (t.enter origin parent kind keep ownFile ownFrame).Kept t') :
    t'.snapshots.node? (t.snapshots.size + 1) =
      some (origin, t.inner origin parent kind keep ownFile ownFrame) := by
  rw [inside.node, ScopeTree.enter, Arena.nodePushNew]
  simp [ScopeTree.enter]

theorem getInside (inside : (t.enter origin parent kind keep ownFile ownFrame).Kept t')
    (found : t.snapshots.get? origin = some parent) : t'.snapshots.get? origin = some parent := by
  have bound := (Arena.getBounds found).2
  rw [Arena.get?, inside.node, ← Arena.get?, getEnterOld found]
  simp only [ScopeTree.enter, Arena.sizePush]
  omega

theorem directoryInside (inside : (t.enter origin parent kind keep ownFile ownFrame).Kept t')
    {children : List Nat}
    (current : t.directories.get? parent.directory = some (origin, children)) :
    t'.directories.get? parent.directory = some (t.snapshots.size + 1, children) := by
  rw [inside.directory, ScopeTree.enter, Arena.getModify, if_pos rfl, current]
  rfl

theorem keptBracket (found : t.snapshots.get? origin = some parent)
    {children : List Nat}
    (current : t.directories.get? parent.directory = some (origin, children))
    (inside : (t.enter origin parent kind keep ownFile ownFrame).Kept t') :
    t.Kept (t'.leave (t.snapshots.size + 1) origin
      (t.inner origin parent kind keep ownFile ownFrame) parent) := by
  have grown := inside.grown
  simp only [ScopeTree.enter, Arena.sizePush] at grown
  constructor
  case sound => exact inside.sound.leave (nodeInside inside) (getInside inside found)
  case grown =>
    rw [snapshotsLeave]
    split_ifs with dropped
    · have last : t'.snapshots.isLast (t.snapshots.size + 1) = true := by
        simpa using (Bool.or_eq_false_iff.mp dropped).2
      rw [Arena.sizePop last]
      omega
    · omega
  case node =>
    intro id bound
    rw [nodeLeave, if_neg (by omega), inside.node, ScopeTree.enter, Arena.nodePushOld bound]
    simp only [ScopeTree.enter, Arena.sizePush]
    omega
  case directory =>
    intro d
    rw [directoryLeave]
    split_ifs with here
    · rw [here, directoryInside inside current, current]
      rfl
    · rw [inside.directory, ScopeTree.enter, Arena.getModify, if_neg here]

theorem sizesBracket (sound : t.Sound) (found : t.snapshots.get? origin = some parent)
    (inside : (t.enter origin parent kind false ownFile ownFrame).Kept t')
    (same : (t.enter origin parent kind false ownFile ownFrame).SameSizes t') :
    t.SameSizes (t'.leave (t.snapshots.size + 1) origin
      (t.inner origin parent kind false ownFile ownFrame) parent) := by
  obtain ⟨snapshots, frames, listFiles⟩ := same
  simp only [ScopeTree.enter, Arena.sizePush] at snapshots
  rw [sizeFramesEnter] at frames
  rw [sizeListFilesEnter] at listFiles
  have placed := sound.placed found
  obtain ⟨last, dropped⟩ := Arena.popTop snapshots
  constructor
  · rw [snapshotsLeave, if_pos (by simp [inner, last]), dropped]
  · rw [framesLeave]
    cases ownFrame
    · simpa [inner] using frames
    · obtain ⟨top, dropped⟩ := Arena.popTop frames
      have bound := placed.frame
      rw [if_pos]
      · exact dropped
      · simp [inner, last, top]
        omega
  · rw [listFilesLeave]
    cases ownFile
    · simpa [inner] using listFiles
    · obtain ⟨top, dropped⟩ := Arena.popTop listFiles
      have bound := placed.listFile
      rw [if_pos]
      · exact dropped
      · simp [inner, last, top]
        omega

end Bracket

end ScopeTree

namespace Scopes

def isCurrent (s : Scopes) (id : Nat) : Bool := (s.directory? id).any (·.current == id)

theorem isCurrentIff {s : Scopes} {id : Nat} : s.isCurrent id = true ↔
    ∃ p d, s.snapshots.get? id = some p ∧ s.directories.get? p.directory = some d ∧
      d.current = id := by
  unfold isCurrent directory?
  cases found : s.snapshots.get? id with
  | none => simp
  | some p => cases there : s.directories.get? p.directory <;> simp [there]

theorem isCurrentTree {s : Scopes} {id : Nat} : s.isCurrent id = true ↔
    ∃ p children, s.tree.snapshots.get? id = some p ∧
      s.tree.directories.get? p.directory = some (id, children) := by
  rw [isCurrentIff]
  constructor
  · rintro ⟨p, d, found, there, rfl⟩
    exact ⟨p.place, d.children, by simp [getTree, found],
      by simp [directoryTree, Snapshot.place, there]⟩
  · rintro ⟨q, children, found, there⟩
    rw [getTree] at found
    rw [directoryTree] at there
    obtain ⟨p, here, rfl⟩ := Option.map_eq_some_iff.mp found
    obtain ⟨d, inside, same⟩ := Option.map_eq_some_iff.mp there
    cases same
    exact ⟨p, d, here, inside, rfl⟩

/-- What a balanced use leaves as it was when it edits only the snapshots in `edited`. -/
structure Kept (s s' : Scopes) (edited : Nat → Prop) : Prop where
  tree : s.tree.Kept s'.tree
  identity : ∀ {id}, id ≤ s.snapshots.size → ¬edited id →
    (s'.snapshots.get? id).map Snapshot.identity = (s.snapshots.get? id).map Snapshot.identity

theorem Kept.refl {s : Scopes} (sound : s.tree.Sound) (edited : Nat → Prop) : s.Kept s edited :=
  ⟨.refl sound, fun _ _ => rfl⟩

theorem Kept.trans {s s' s'' : Scopes} {edited : Nat → Prop} (first : s.Kept s' edited)
    (second : s'.Kept s'' edited) : s.Kept s'' edited where
  tree := first.tree.trans second.tree
  identity bound free := by
    have grown := first.tree.grown
    simp only [sizeTreeSnapshots] at grown
    exact (second.identity (Nat.le_trans bound grown) free).trans (first.identity bound free)

theorem Kept.mono {s s' : Scopes} {edited wider : Nat → Prop} (kept : s.Kept s' edited)
    (widen : ∀ id, edited id → wider id) : s.Kept s' wider :=
  ⟨kept.tree, fun bound free => kept.identity bound fun inside => free (widen _ inside)⟩

theorem keptEdit {s : Scopes} (sound : s.tree.Sound) (e : ScopeEdit) (id : Nat) :
    s.Kept (e.apply s id) (· = id) where
  tree := by
    rw [ScopeEdit.treeApply]
    exact .refl sound
  identity _ free := by rw [ScopeEdit.getApplyOther free]

theorem Kept.isCurrent {s s' : Scopes} {edited : Nat → Prop} {id : Nat} (kept : s.Kept s' edited)
    (current : s.isCurrent id = true) : s'.isCurrent id = true := by
  obtain ⟨p, children, found, there⟩ := isCurrentTree.mp current
  refine isCurrentTree.mpr ⟨p, children, ?_, ?_⟩
  · rw [Arena.get?, kept.tree.node (Arena.getBounds found).2, ← Arena.get?, found]
  · rw [kept.tree.directory, there]

theorem keptBracket {s t t' : Scopes} {origin id : Nat} {o : ScopeOpening}
    (current : s.isCurrent origin = true) (created : o.create s origin = .ok (t, id))
    (inside : t.Kept t' (· = id)) :
    ∃ s', t'.pop id = .ok (s', origin) ∧ s.Kept s' (fun _ => False) ∧
      (o.keeps = false → s.tree.Sound → t.tree.SameSizes t'.tree → s.tree.SameSizes s'.tree) := by
  rw [ScopeOpening.createNested] at created
  obtain ⟨parent, found, new, snapshots, opened⟩ := treeCreateNested created
  rw [← sizeTreeSnapshots] at new
  subst new
  obtain ⟨_, children, known, there⟩ := isCurrentTree.mp current
  have parentFound : s.tree.snapshots.get? origin = some parent.place := by simp [getTree, found]
  rw [parentFound] at known
  cases known
  have tree := inside.tree
  rw [opened] at tree
  obtain ⟨s', popped, left⟩ := popAt (ScopeTree.nodeInside tree)
    (ScopeTree.getInside tree parentFound)
    (ScopeTree.directoryInside tree there)
  refine ⟨s', popped, ⟨?_, ?_⟩, ?_⟩
  · rw [left]
    exact ScopeTree.keptBracket parentFound there tree
  · intro j bound _
    have size := sizeTreeSnapshots s
    have older : j ≤ t.snapshots.size := by
      rw [snapshots, Arena.sizePush]
      omega
    rw [identityPop popped (by omega), inside.identity older (by omega), snapshots,
      Arena.getPush, if_neg (by omega)]
  · intro passing sound same
    rw [opened, passing] at same
    rw [passing] at tree
    rw [left, passing]
    exact ScopeTree.sizesBracket sound parentFound tree same

theorem createCurrent {s : Scopes} {origin : Nat} (sound : s.tree.Sound)
    (current : s.isCurrent origin = true) (o : ScopeOpening) :
    ∃ t id, o.create s origin = .ok (t, id) ∧ t.tree.Sound ∧ t.isCurrent id = true := by
  obtain ⟨parent, d, found, there, -⟩ := isCurrentIff.mp current
  obtain ⟨⟨t, id⟩, created⟩ : ∃ result, o.create s origin = .ok result :=
    ⟨_, (o.createNested s origin).trans (createNestedOf found ..)⟩
  refine ⟨t, id, created, ?_⟩
  rw [ScopeOpening.createNested] at created
  obtain ⟨_, known, rfl, -, opened⟩ := treeCreateNested created
  rw [found] at known
  cases known
  have parentFound : s.tree.snapshots.get? origin = some parent.place := by simp [getTree, found]
  constructor
  · rw [opened]
    exact sound.enter parentFound ..
  · refine isCurrentTree.mpr ⟨s.tree.inner origin parent.place o.kind o.keeps o.file?.isSome
      o.ownFrame, d.children, ?_, ?_⟩
    · rw [opened, ← sizeTreeSnapshots, ScopeTree.getEnterNew]
    · rw [opened]
      simp [ScopeTree.enter, ScopeTree.inner, Arena.getModify, directoryTree, Snapshot.place, there]

theorem popInitial {s : Scopes} (sound : s.tree.Sound) :
    ∃ error, s.pop (({} : Scopes).createBase).2 = .error error := by
  cases popped : s.pop (({} : Scopes).createBase).2 with
  | error error => exact ⟨error, rfl⟩
  | ok result =>
    obtain ⟨inner, outer, -, here, above, -⟩ := treePop popped
    obtain ⟨p, first, -⟩ := sound.base
    have up : result.2 = 0 := congrArg Prod.fst (Option.some.inj (here.symm.trans first))
    rw [up, Arena.getZero] at above
    cases above

end Scopes

inductive ScopeAction where
  | enter (o : ScopeOpening)
  | edit (e : ScopeEdit)
  | leave

namespace ScopeAction

/-- Runs an action on the innermost of the open scopes. Opening needs that scope to be current, and
closing it has to give the one below it. -/
def run : Scopes × List Nat → ScopeAction → Option (Scopes × List Nat)
  | (s, id :: below), enter o =>
    if s.isCurrent id then
      match o.create s id with
      | .ok (s', inner) => some (s', inner :: id :: below)
      | .error _ => none
    else none
  | (s, id :: below), edit e => some (e.apply s id, id :: below)
  | (s, id :: up :: below), leave =>
    match s.pop id with
    | .ok (s', parent) => if parent = up then some (s', up :: below) else none
    | .error _ => none
  | _, _ => none

def runAll (actions : List ScopeAction) (state : Scopes × List Nat) : Option (Scopes × List Nat) :=
  actions.foldlM run state

inductive Inside : List ScopeAction → Prop where
  | done : Inside []
  | edit (e : ScopeEdit) {rest : List ScopeAction} : Inside rest → Inside (edit e :: rest)
  | scope (o : ScopeOpening) {body rest : List ScopeAction} :
    Inside body → Inside rest → Inside (enter o :: body ++ leave :: rest)

inductive WellBracketed : List ScopeAction → Prop where
  | done : WellBracketed []
  | scope (o : ScopeOpening) {body rest : List ScopeAction} :
    Inside body → WellBracketed rest → WellBracketed (enter o :: body ++ leave :: rest)

def Passing (actions : List ScopeAction) : Prop := ∀ o, enter o ∈ actions → o.keeps = false

/-- The actions run from any sound state to the scope they started in, with edits to those of its
snapshots only that `edited` names. -/
def Restores (edited : Nat → Nat → Prop) (actions : List ScopeAction) : Prop :=
  ∀ (s : Scopes) (id : Nat) (below : List Nat), s.tree.Sound → s.isCurrent id = true →
    ∃ s', runAll actions (s, id :: below) = some (s', id :: below) ∧ s.Kept s' (edited id) ∧
      (Passing actions → s.tree.SameSizes s'.tree)

theorem restoresNone (edited : Nat → Nat → Prop) : Restores edited [] :=
  fun _ _ _ sound _ => ⟨_, rfl, .refl sound _, fun _ => ⟨rfl, rfl, rfl⟩⟩

theorem restoresEdit (e : ScopeEdit) : Restores (fun id other => other = id) [edit e] := by
  intro s id below sound current
  refine ⟨e.apply s id, rfl, Scopes.keptEdit sound e id, fun _ => ?_⟩
  rw [ScopeEdit.treeApply]
  exact ⟨rfl, rfl, rfl⟩

theorem Restores.append {edited : Nat → Nat → Prop} {first second : List ScopeAction}
    (one : Restores edited first) (two : Restores edited second) :
    Restores edited (first ++ second) := by
  intro s id below sound current
  obtain ⟨s', ran, kept, sizes⟩ := one s id below sound current
  obtain ⟨s'', ran', kept', sizes'⟩ := two s' id below kept.tree.sound (kept.isCurrent current)
  refine ⟨s'', ?_, kept.trans kept', fun passing => ?_⟩
  · rw [runAll, List.foldlM_append]
    exact Option.bind_eq_some_iff.mpr ⟨_, ran, ran'⟩
  · exact (sizes fun o inside => passing o (List.mem_append_left _ inside)).trans
      (sizes' fun o inside => passing o (List.mem_append_right _ inside))

theorem Restores.scope {body : List ScopeAction} (inside : Restores (fun id other => other = id) body)
    (o : ScopeOpening) : Restores (fun _ _ => False) (enter o :: body ++ [leave]) := by
  intro s id below sound current
  obtain ⟨t, inner, created, opened, innermost⟩ := Scopes.createCurrent sound current o
  obtain ⟨t', ran, kept, sizes⟩ := inside t inner (id :: below) opened innermost
  obtain ⟨s', popped, restored, sizes'⟩ := Scopes.keptBracket current created kept
  refine ⟨s', ?_, restored, fun passing => ?_⟩
  · have entered : run (s, id :: below) (enter o) = some (t, inner :: id :: below) := by
      simp [run, current, created]
    have left : run (t', inner :: id :: below) leave = some (s', id :: below) := by
      simp [run, popped]
    rw [runAll, List.cons_append, List.foldlM_cons, entered]
    refine (List.foldlM_append ..).trans (Option.bind_eq_some_iff.mpr ⟨_, ran, ?_⟩)
    simpa using left
  · refine sizes' (passing o (by simp)) sound (sizes fun o' member => passing o' ?_)
    simp [member]

theorem Restores.mono {edited wider : Nat → Nat → Prop} {actions : List ScopeAction}
    (restores : Restores edited actions) (widen : ∀ id other, edited id other → wider id other) :
    Restores wider actions := by
  intro s id below sound current
  obtain ⟨s', ran, kept, sizes⟩ := restores s id below sound current
  exact ⟨s', ran, kept.mono (widen id), sizes⟩

theorem Inside.restores {actions : List ScopeAction} (inside : Inside actions) :
    Restores (fun id other => other = id) actions := by
  induction inside with
  | done => exact restoresNone _
  | edit e _ rest => exact (restoresEdit e).append rest
  | @scope o body more _ _ bodyRuns moreRuns =>
    have whole := ((bodyRuns.scope o).mono fun _ _ no => no.elim).append moreRuns
    simpa using whole

theorem WellBracketed.restores {actions : List ScopeAction} (bracketed : WellBracketed actions) :
    Restores (fun _ _ => False) actions := by
  induction bracketed with
  | done => exact restoresNone _
  | @scope o body more inside _ moreRuns =>
    have whole := (inside.restores.scope o).append moreRuns
    simpa using whole

end ScopeAction

/-- From the current scope of any directory, scopes that are opened and closed in pairs lead back to
that scope. A scope that is not current and the first scope cannot be closed. -/
theorem scopesCloseInPairs {s : Scopes} (reachable : s.Reachable) :
    (∀ {id : Nat} {actions : List ScopeAction}, s.isCurrent id = true →
      ScopeAction.WellBracketed actions →
      ∃ s', ScopeAction.runAll actions (s, [id]) = some (s', [id]) ∧ s'.isCurrent id = true ∧
        (s'.snapshots.get? id).map Snapshot.identity =
          (s.snapshots.get? id).map Snapshot.identity ∧
        (ScopeAction.Passing actions → s'.snapshots.size = s.snapshots.size ∧
          s'.frames.size = s.frames.size ∧ s'.listFiles.size = s.listFiles.size)) ∧
    ∀ {id : Nat}, s.isCurrent id = false ∨ id = (({} : Scopes).createBase).2 →
      (∃ error, s.pop id = .error error) ∧ (ScopeUse.leave id).apply s = s := by
  constructor
  · intro id actions current bracketed
    obtain ⟨s', ran, kept, sizes⟩ := bracketed.restores s id [] reachable.sound current
    obtain ⟨p, _, found, _⟩ := Scopes.isCurrentIff.mp current
    refine ⟨s', ran, kept.isCurrent current, ?_, fun passing => ?_⟩
    · exact kept.identity (Arena.getBounds found).2 (fun no => no)
    · obtain ⟨snapshots, frames, listFiles⟩ := sizes passing
      simp only [Scopes.sizeTreeSnapshots, Scopes.sizeTreeFrames,
        Scopes.sizeTreeListFiles] at snapshots frames listFiles
      exact ⟨snapshots, frames, listFiles⟩
  · intro id refused
    obtain ⟨error, failed⟩ : ∃ error, s.pop id = .error error := by
      rcases refused with other | rfl
      · refine Scopes.popRefused fun p d found there same => ?_
        rw [Scopes.isCurrentIff.mpr ⟨p, d, found, there, same⟩] at other
        cases other
      · exact Scopes.popInitial reachable.sound
    exact ⟨⟨error, failed⟩, by simp [ScopeUse.apply, failed]⟩

theorem callClosesInPairs :
    Scopes.initial.Reachable ∧
    (∃ s', ScopeAction.runAll [.enter (.functionCall "f.cmake"), .edit (.define "x" "1"),
        .enter .policyScope, .leave, .leave] (Scopes.initial, [1]) = some (s', [1]) ∧
      s'.isCurrent 1 = true ∧ s'.snapshots.size = 1) ∧
    ∃ error, Scopes.initial.pop 1 = .error error := by
  have current : Scopes.initial.isCurrent 1 = true :=
    Scopes.isCurrentTree.mpr ⟨Scopes.basePlace, [], by rw [Scopes.treeInitial]; rfl,
      by rw [Scopes.treeInitial]; rfl⟩
  have pairs := scopesCloseInPairs .initial
  obtain ⟨s', ran, still, -, sizes⟩ := pairs.1 current
    (.scope (.functionCall "f.cmake") (.edit (.define "x" "1") (.scope .policyScope .done .done))
      .done)
  refine ⟨.initial, ⟨s', ran, still, ?_⟩, (pairs.2 (.inr rfl)).1⟩
  rw [(sizes ?_).1, ← Scopes.sizeTreeSnapshots, Scopes.treeInitial]
  · rfl
  · intro o member
    simp at member
    rcases member with rfl | rfl <;> rfl

end CMakeScript
