import CMakeScript.Proofs.CallerPolicies
import CMakeScript.Proofs.ScopeViews
import CMakeScript.Proofs.Turns
/-! Every directory that is being processed has come to a scope of its own, which is current there
and stands on policy frames that are there. It stays so as long as no scope is closed but one that
was opened inside of another scope of its directory. -/
namespace CMakeScript

structure Scopes.Grounded (s : Scopes) : Prop where
  sound : s.tree.Sound
  founded : ∃ owner, s.tree.Founded s.policyView owner
  falling : s.policyView.frames.Falling

namespace ScopeTree

variable {t : ScopeTree} {x y up : Nat} {inner outer : Snapshot}

def Current (t : ScopeTree) (id : Nat) : Prop :=
  ∃ p children, t.snapshots.get? id = some p ∧
    t.directories.get? p.directory = some (id, children)

theorem Current.apart {p q : Snapshot} (current : t.Current x) (other : t.Current y)
    (found : t.snapshots.get? x = some p) (found' : t.snapshots.get? y = some q)
    (different : y ≠ x) : q.directory ≠ p.directory := by
  obtain ⟨_, children, live, there⟩ := current
  obtain ⟨_, children', live', there'⟩ := other
  rw [found] at live
  rw [found'] at live'
  cases live
  cases live'
  intro same
  rw [same, there] at there'
  cases there'
  exact different rfl

theorem Current.enter {parent : Snapshot} (current : t.Current x)
    (found : t.snapshots.get? x = some parent) (other : t.Current y) (different : y ≠ x)
    (kind : SnapshotKind) (keep ownFile ownFrame : Bool) :
    (t.enter x parent kind keep ownFile ownFrame).Current y := by
  obtain ⟨q, children, live, there⟩ := other
  have elsewhere := current.apart ⟨q, children, live, there⟩ found live different
  refine ⟨q, children, getEnterOld live, ?_⟩
  rw [ScopeTree.enter, Arena.getModify, if_neg elsewhere, there]

theorem currentEnterDirectory {parent : Snapshot} (other : t.Current y) :
    (t.enterDirectory x parent).Current y := by
  obtain ⟨q, children, live, there⟩ := other
  have known := (Arena.getBounds there).2
  have old : (t.directories.push parent.directory (t.snapshots.size + 1, [])).1.get? q.directory =
      some (y, children) := by
    rw [Arena.getPush, if_neg (by omega), there]
  by_cases same : q.directory = parent.directory
  · refine ⟨q, children ++ [t.snapshots.size + 1], getEnterDirectoryOld live, ?_⟩
    rw [enterDirectory, Arena.getModify, if_pos same, old]
    rfl
  · refine ⟨q, children, getEnterDirectoryOld live, ?_⟩
    rw [enterDirectory, Arena.getModify, if_neg same, old]

theorem currentOfDirectory {parent : Snapshot} (sound : t.Sound)
    (found : t.snapshots.get? x = some parent) :
    (t.enterDirectory x parent).Current (t.snapshots.size + 1) := by
  have known := (Arena.containsIff.mp (sound.placed found).directory).2
  have other : t.directories.size + 1 ≠ parent.directory := by omega
  refine ⟨t.directoryPlace x parent, [], getEnterDirectoryNew, ?_⟩
  simp [enterDirectory, directoryPlace, Arena.getModify, other, Arena.getPush]

section Leave

variable (here : t.snapshots.node? x = some (up, inner)) (above : t.snapshots.get? up = some outer)
  (current : t.Current x) (same : outer.directory = inner.directory) (older : up < x)
include here above current same older

theorem Current.leave (other : t.Current y) (different : y ≠ x) :
    (t.leave x up inner outer).Current y ∧ y ≠ up := by
  have found := Arena.getOfNode here
  obtain ⟨q, children, live, there⟩ := other
  have elsewhere := current.apart ⟨q, children, live, there⟩ found live different
  refine ⟨⟨q, children, getLeaveOf live fun _ => different, ?_⟩, ?_⟩
  · rw [directoryLeave, if_neg (same ▸ elsewhere), there]
  · rintro rfl
    rw [live] at above
    cases above
    exact elsewhere same

theorem currentAfterLeave : (t.leave x up inner outer).Current up := by
  obtain ⟨p, children, live, there⟩ := current
  rw [Arena.getOfNode here] at live
  cases live
  refine ⟨outer, children, getLeaveOf above fun _ => by omega, ?_⟩
  rw [directoryLeave, if_pos rfl, same, there]
  rfl

end Leave

theorem Below.sameDirectory (sound : t.Sound) (rooted : t.Rooted) {own : Bool}
    (below : t.Below own x) (here : t.snapshots.node? x = some (up, inner))
    (above : t.snapshots.get? up = some outer) : outer.directory = inner.directory := by
  obtain ⟨_, p, q, found, around, -, root, frame⟩ := below
  cases found.symm.trans here
  cases around.symm.trans above
  have live := Arena.getOfNode here
  have inOuter := (rooted.hung above).frameMember rooted.frames
  have rootBelow : outer.rootFrame < outer.frame := (sound.placed above).rootFrame
  cases own with
  | false =>
    have inInner := (rooted.hung live).frameMember rooted.frames
    rw [show inner.frame = outer.frame from frame] at inInner
    exact rooted.apart above live inOuter inInner
  | true =>
    have frame : inner.parentFrame = outer.frame := frame
    have inInner := (rooted.hung live).parentFrameMember rooted.frames (by omega)
    rw [frame] at inInner
    exact rooted.apart above live inOuter inInner

end ScopeTree
namespace Scopes

variable {s s' : Scopes} {id : Nat}

namespace Grounded

theorem same (grounded : s.Grounded) (tree : s'.tree = s.tree)
    (view : s'.policyView = s.policyView) : s'.Grounded where
  sound := tree ▸ grounded.sound
  founded := by
    rw [tree, view]
    exact grounded.founded
  falling := view ▸ grounded.falling

theorem policiesFalling (grounded : s.Grounded) : s.policies.Falling :=
  Arena.fallingMap.mp grounded.falling

theorem openStand (grounded : s.Grounded) (opened : s.tree.Open id) {top bound : Nat}
    (found : s.policyView.scopes.get? id = some (top, bound)) :
    0 < bound ∧ bound ≤ top ∧ top ≤ s.policies.size := by
  obtain ⟨owner, founded⟩ := grounded.founded
  obtain ⟨⟨n, pushed⟩, known, -⟩ := founded opened found
  have above := (Arena.containsIff.mp (pushed.known known)).2
  rw [sizeViewFrames] at above
  exact ⟨(Arena.containsIff.mp known).1, pushed.boundBelow grounded.falling, above⟩

end Grounded
end Scopes

theorem PolicyView.fallingEdit {v : PolicyView} {id : Nat} {e : ScopeEdit}
    (falling : v.frames.Falling)
    (known : e.movesFrames = true → ∀ {top bound}, v.scopes.get? id = some (top, bound) →
      top ≤ v.frames.size) : (v.edit id e).frames.Falling := by
  cases found : v.scopes.get? id with
  | none => rwa [editNone found]
  | some stand =>
    obtain ⟨top, bound⟩ := stand
    simp only [edit, found]
    cases e with
    | pushPolicy settings weak => exact Arena.fallingPush falling (known rfl found) weak
    | popPolicy =>
      dsimp only
      split
      · exact falling
      · exact Arena.fallingPop falling top
    | _ => exact falling

theorem ScopeUse.groundedApply {s : Scopes} (grounded : s.Grounded) {u : ScopeUse}
    (inTurn : u.InTurn s) : (u.apply s).Grounded where
  sound := soundApply grounded.sound u
  founded := by
    obtain ⟨owner, founded⟩ := grounded.founded
    exact foundedApply grounded.sound founded inTurn
  falling := by
    have known {id top bound} (current : s.isCurrent id = true)
        (found : s.policyView.scopes.get? id = some (top, bound)) :
        top ≤ s.policyView.frames.size := by
      obtain ⟨p, children, -, there⟩ := Scopes.isCurrentTree.mp current
      rw [Scopes.sizeViewFrames]
      exact (grounded.openStand (.current there) found).2.2
    have stepped := u.viewApply s
    generalize (u.apply s).policyView = v at stepped ⊢
    cases stepped with
    | enterDirectory found => exact Arena.fallingPush grounded.falling (known inTurn found) false
    | edit id e =>
      exact PolicyView.fallingEdit grounded.falling fun moves {_ _} => known (inTurn moves)
    | _ => exact grounded.falling

theorem Scopes.groundedInitial : initial.Grounded where
  sound := soundInitial
  founded := ⟨_, foundedInitial⟩
  falling := by
    rw [viewInitial]
    intro id up value found
    obtain ⟨rfl, same⟩ := Arena.nodeSingle found
    cases same
    decide

namespace Engine

def seat? (e : Engine) (i : Nat) : Option Nat := (e.runs[i]?).map (·.snapshot)

structure Grounded (e : Engine) : Prop where
  scopes : e.scopes.Grounded
  current : ∀ {i id}, e.seat? i = some id → e.scopes.tree.Current id
  apart : ∀ {i j id}, e.seat? i = some id → e.seat? j = some id → i = j

variable {e e' : Engine}

theorem seatHere (placed : e.current < e.runs.size) : e.seat? e.current = some e.snapshot := by
  simp [seat?, snapshot, Array.getElem?_eq_getElem placed]

theorem seatMoved (placed : e.current < e.runs.size) (id i : Nat) :
    (e.setSnapshot id).seat? i = if i = e.current then some id else e.seat? i := by
  simp only [seat?, setSnapshot, Array.getElem?_modify]
  by_cases here : e.current = i
  · subst here
    simp [Array.getElem?_eq_getElem placed]
  · rw [if_neg here, if_neg (Ne.symm here)]

theorem seatsChange (e : Engine) (i : Nat) (change : QueueChange) :
    (e.changeQueue i change).seat? = e.seat? := by
  funext j
  unfold changeQueue
  split
  · simp only [seat?, logged, Array.getElem?_modify]
    split <;> cases e.runs[j]? <;> rfl
  · rfl

theorem placedFound {p : Snapshot} (found : e.scopes.snapshots.get? e.snapshot = some p) :
    e.current < e.runs.size :=
  placedSnapshot (Arena.getBounds found).1

namespace Grounded

theorem here (grounded : e.Grounded) (placed : e.current < e.runs.size) :
    e.scopes.tree.Current e.snapshot :=
  grounded.current (seatHere placed)

theorem views (grounded : e.Grounded) (tree : e'.scopes.tree = e.scopes.tree)
    (view : e'.scopes.policyView = e.scopes.policyView) (seats : e'.seat? = e.seat?) :
    e'.Grounded where
  scopes := grounded.scopes.same tree view
  current := by
    rw [seats, tree]
    exact grounded.current
  apart := by
    rw [seats]
    exact grounded.apart

theorem same (grounded : e.Grounded) (scopes : e'.scopes = e.scopes)
    (seats : e'.seat? = e.seat?) : e'.Grounded :=
  grounded.views (congrArg Scopes.tree scopes) (congrArg Scopes.policyView scopes) seats

theorem moved (grounded : e.Grounded) (placed : e.current < e.runs.size) {scopes : Scopes}
    {id : Nat} (fine : scopes.Grounded) (current : scopes.tree.Current id)
    (others : ∀ y ≠ e.snapshot, e.scopes.tree.Current y → scopes.tree.Current y ∧ y ≠ id) :
    (({ e with scopes } : Engine).setSnapshot id).Grounded := by
  have seat i : (({ e with scopes } : Engine).setSnapshot id).seat? i =
      if i = e.current then some id else e.seat? i := seatMoved (e := { e with scopes }) placed id i
  have elsewhere {i y : Nat} (found : e.seat? i = some y) (other : i ≠ e.current) :
      scopes.tree.Current y ∧ y ≠ id := by
    refine others y ?_ (grounded.current found)
    rintro rfl
    exact other (grounded.apart found (seatHere placed))
  constructor
  case scopes => exact fine
  case current =>
    intro i y found
    rw [seat] at found
    split at found
    · cases found
      exact current
    case isFalse other => exact (elsewhere found other).1
  case apart =>
    intro i j y first second
    rw [seat] at first second
    split at first <;> split at second
    case isTrue.isTrue here there => rw [here, there]
    case isTrue.isFalse other =>
      cases first
      exact absurd rfl (elsewhere second other).2
    case isFalse.isTrue other _ =>
      cases second
      exact absurd rfl (elsewhere first other).2
    case isFalse.isFalse => exact grounded.apart first second

theorem edit (grounded : e.Grounded) (edit : Edit e e') : e'.Grounded := by
  have issued (kind : MessageKind) (text : String) (trace : Backtrace) :
      (e.issueAt kind text trace).Grounded := by
    obtain ⟨nested, written, errorOccurred, issued, -⟩ := issueAtCases e kind text trace
    rw [issued]
    exact grounded.same rfl rfl
  cases edit with
  | @scope id u own =>
    have tree : (u.apply e.scopes id).tree = e.scopes.tree := u.treeApply e.scopes id
    refine ⟨?_, fun seat => tree ▸ grounded.current seat, grounded.apart⟩
    cases moves : u.movesFrames with
    | false =>
      have inTurn : (ScopeUse.edit id u).InTurn e.scopes := fun moved => by
        rw [moves] at moved
        cases moved
      exact ScopeUse.groundedApply grounded.scopes inTurn
    | true =>
      obtain rfl := own moves
      cases found : e.scopes.snapshots.get? e.snapshot with
      | none =>
        refine grounded.scopes.same tree ?_
        rw [ScopeEdit.viewApply, PolicyView.editNone (by simp [Scopes.getStand, found])]
      | some p =>
        have inTurn : (ScopeUse.edit e.snapshot u).InTurn e.scopes := fun _ =>
          Scopes.isCurrentTree.mpr (grounded.here (placedFound found))
        exact ScopeUse.groundedApply grounded.scopes inTurn
  | directory id hidden =>
    exact grounded.views (Scopes.treeUpdateDirectory _ _ hidden) (Scopes.viewUpdateDirectory ..) rfl
  | declared =>
    exact grounded.views (Scopes.treeUpdateDirectory _ _ fun _ => ⟨rfl, rfl⟩)
      (Scopes.viewUpdateDirectory ..) rfl
  | listFile id path =>
    exact grounded.views (Scopes.treeSetListFile ..) (Scopes.viewSetListFile ..) rfl
  | issue _ text trace => exact issued ..
  | @display kind _ text =>
    unfold Engine.display
    split <;> exact grounded.same rfl rfl
  | lost _ error => exact (issued ..).same rfl rfl
  | queue => exact grounded.same (scopesChange ..) (seatsChange ..)
  | _ => exact grounded.same rfl rfl

theorem edits (grounded : e.Grounded) (edits : Edits e e') : e'.Grounded := by
  induction edits with
  | refl => exact grounded
  | tail _ last ih => exact ih.edit last

theorem openScope (grounded : e.Grounded) {o : ScopeOpening} {scopes : Scopes} {id : Nat}
    (created : o.create e.scopes e.snapshot = .ok (scopes, id)) :
    (({ e with scopes } : Engine).setSnapshot id).Grounded := by
  have applied : (ScopeUse.enter e.snapshot o).apply e.scopes = scopes := by
    rw [ScopeUse.apply, created]
  rw [ScopeOpening.createNested] at created
  obtain ⟨parent, found, rfl, -, tree⟩ := Scopes.treeCreateNested created
  have placed := placedFound found
  have here := grounded.here placed
  have above := Scopes.liveTree found
  have inTurn : (ScopeUse.enter e.snapshot o).InTurn e.scopes := Scopes.isCurrentTree.mpr here
  refine grounded.moved placed (applied ▸ ScopeUse.groundedApply grounded.scopes inTurn) ?_
    fun y different other => ⟨?_, ?_⟩
  · obtain ⟨p, children, live, there⟩ := here
    rw [above] at live
    cases live
    rw [tree, ← Scopes.sizeTreeSnapshots]
    refine ⟨_, children, ScopeTree.getEnterNew, ?_⟩
    simp [ScopeTree.enter, ScopeTree.inner, Arena.getModify, there]
  · exact tree ▸ here.enter above other different ..
  · obtain ⟨q, -, live, -⟩ := other
    have bound := (Arena.getBounds live).2
    rw [Scopes.sizeTreeSnapshots] at bound
    omega

theorem closeScope (grounded : e.Grounded) (rooted : e.scopes.tree.Rooted) {own : Bool}
    (below : e.scopes.tree.Below own e.snapshot) {scopes : Scopes} {up : Nat}
    (popped : e.scopes.pop e.snapshot = .ok (scopes, up)) :
    (({ e with scopes } : Engine).setSnapshot up).Grounded := by
  have applied : (ScopeUse.leave e.snapshot).apply e.scopes = scopes := by
    rw [ScopeUse.apply, popped]
  have placed := placedSnapshot below.bound.1
  have here := grounded.here placed
  obtain ⟨inner, outer, -, found, above, -, tree⟩ := Scopes.treePop popped
  have older := grounded.scopes.sound.above found
  have same := below.sameDirectory grounded.scopes.sound rooted found above
  have inTurn : (ScopeUse.leave e.snapshot).InTurn e.scopes := by
    intro p q live around
    have parent : e.scopes.snapshots.parent e.snapshot = up := by
      rw [Scopes.nodeTree] at found
      obtain ⟨⟨_, _⟩, node, pair⟩ := Option.map_eq_some_iff.mp found
      cases pair
      exact Arena.parentOfNode node
    rw [parent] at around
    cases (Scopes.liveTree live).symm.trans (Arena.getOfNode found)
    cases (Scopes.liveTree around).symm.trans above
    exact .inl same
  refine grounded.moved placed (applied ▸ ScopeUse.groundedApply grounded.scopes inTurn) ?_
    fun y different other => ?_
  · exact tree ▸ ScopeTree.currentAfterLeave found above here same older
  · exact tree ▸ ScopeTree.Current.leave found above here same older other different

theorem first (scopes : e.scopes = Scopes.initial) (runs : e.runs = #[{ snapshot := 1 }]) :
    e.Grounded := by
  have seat {i id : Nat} (found : e.seat? i = some id) : i = 0 ∧ id = 1 := by
    rw [Engine.seat?, runs] at found
    obtain ⟨run, inside, rfl⟩ := Option.map_eq_some_iff.mp found
    obtain ⟨here, rfl⟩ := Array.getElem?_eq_some_iff.mp inside
    obtain rfl : i = 0 := by simpa using here
    exact ⟨rfl, rfl⟩
  refine ⟨scopes ▸ Scopes.groundedInitial, fun {i id} found => ?_, fun {i j id} one two => ?_⟩
  · obtain ⟨-, rfl⟩ := seat found
    rw [scopes, Scopes.treeInitial]
    exact ⟨Scopes.basePlace, [], rfl, rfl⟩
  · rw [(seat one).1, (seat two).1]

theorem subdirectory (grounded : e.Grounded) {id : Nat} (created : e.Subdirectory id e') :
    e'.Grounded ∧ e'.scopes.tree.Current id ∧ ∀ i, e'.seat? i ≠ some id := by
  cases created with
  | @created scopes source binary f opened hidden =>
    have view : ((scopes.setLocations id source binary).updateDirectory id f).policyView =
        scopes.policyView := (Scopes.viewUpdateDirectory ..).trans (Scopes.viewSetLocations ..)
    have same : ((scopes.setLocations id source binary).updateDirectory id f).tree = scopes.tree :=
      (Scopes.treeUpdateDirectory _ id hidden).trans (Scopes.treeSetLocations ..)
    have applied : (ScopeUse.enterDirectory e.snapshot).apply e.scopes = scopes := by
      rw [ScopeUse.apply, opened]
    obtain ⟨parent, found, rfl, tree⟩ := Scopes.treeCreateDirectory opened
    have inTurn : (ScopeUse.enterDirectory e.snapshot).InTurn e.scopes :=
      Scopes.isCurrentTree.mpr (grounded.here (placedFound found))
    have fine : scopes.Grounded := applied ▸ ScopeUse.groundedApply grounded.scopes inTurn
    refine ⟨⟨fine.same same view, fun {i y} seat => ?_, grounded.apart⟩, ?_, fun i seat => ?_⟩
    · rw [same, tree]
      exact ScopeTree.currentEnterDirectory (grounded.current seat)
    · rw [same, tree, ← Scopes.sizeTreeSnapshots]
      exact ScopeTree.currentOfDirectory grounded.scopes.sound (Scopes.liveTree found)
    · obtain ⟨q, -, live, -⟩ := grounded.current (i := i) seat
      have bound := (Arena.getBounds live).2
      rw [Scopes.sizeTreeSnapshots] at bound
      omega

theorem enterDirectory (grounded : e.Grounded) {id : Nat} (current : e.scopes.tree.Current id)
    (free : ∀ i, e.seat? i ≠ some id) : (Runner.enterDirectory id e).Grounded := by
  have seat i : (Runner.enterDirectory id e).seat? i =
      if i = e.runs.size then some id else e.seat? i := by
    simp only [Engine.seat?, Runner.enterDirectory, Array.getElem?_push]
    split <;> rfl
  refine ⟨grounded.scopes, fun {i y} found => ?_, fun {i j y} first second => ?_⟩
  · rw [seat] at found
    split at found
    · cases found
      exact current
    · exact grounded.current found
  · rw [seat] at first second
    split at first <;> split at second
    case isTrue.isTrue here there => rw [here, there]
    case isTrue.isFalse => exact absurd (second.trans first.symm) (free j)
    case isFalse.isTrue => exact absurd (first.trans second.symm) (free i)
    case isFalse.isFalse => exact grounded.apart first second

theorem leaveDirectory (grounded : e.Grounded) (outer : Engine) :
    (Runner.leaveDirectory outer e).Grounded :=
  grounded.same rfl rfl

end Grounded
end Engine
end CMakeScript
