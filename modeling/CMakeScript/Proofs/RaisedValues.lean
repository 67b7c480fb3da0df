import CMakeScript.Proofs.ScopeViews
/-! Where a raised value goes. A scope has a frame of its own below that of the scope it was opened
in, or it shares the frame; so the scope that receives what is raised is found on the way outwards.
A value that is raised out of the top scope of a directory goes to the scope that is current in the
directory around it. -/
namespace CMakeScript

namespace SnapshotKind

def startsDirectory : SnapshotKind → Bool
  | base | directory => true
  | _ => false

def ownsFrame : SnapshotKind → Bool
  | functionCall | variableScope => true
  | _ => false

theorem ownsInside {kind : SnapshotKind} (owns : kind.ownsFrame = true) :
    ¬kind.startsDirectory = true := by
  cases kind <;> simp [ownsFrame, startsDirectory] at owns ⊢

end SnapshotKind

namespace ScopeTree

variable {t t' : ScopeTree}

inductive Joined (t : ScopeTree) (up : Nat) (p : Snapshot) : Prop where
  | directory (starts : p.kind.startsDirectory = true) (top : p.scopeParent = p.directoryParent)
  | inner {q : Snapshot} (owns : p.kind.ownsFrame = true) (outer : t.snapshots.get? up = some q)
      (scope : p.scopeParent = up) (frame : p.parentFrame = q.frame)
      (root : p.rootFrame = q.rootFrame)
  | shared {q : Snapshot} (starts : p.kind.startsDirectory = false)
      (owns : p.kind.ownsFrame = false) (outer : t.snapshots.get? up = some q)
      (scope : p.scopeParent = q.scopeParent) (origin : p.directoryParent = q.directoryParent)
      (frame : p.parentFrame = q.parentFrame) (root : p.rootFrame = q.rootFrame)

theorem Joined.keep {up : Nat} {p : Snapshot} (joined : t.Joined up p)
    (kept : ∀ {q}, t.snapshots.get? up = some q → t'.snapshots.get? up = some q) :
    t'.Joined up p := by
  cases joined with
  | directory starts top => exact .directory starts top
  | inner owns outer scope frame root => exact .inner owns (kept outer) scope frame root
  | shared starts owns outer scope origin frame root =>
    exact .shared starts owns (kept outer) scope origin frame root

def AllJoined (t : ScopeTree) : Prop :=
  ∀ id up p, t.snapshots.node? id = some (up, p) → t.Joined up p

theorem AllJoined.enter (joined : t.AllJoined) {origin : Nat} {parent : Snapshot}
    (found : t.snapshots.get? origin = some parent) {kind : SnapshotKind}
    (starts : kind.startsDirectory = false) (keep ownFile : Bool) :
    (t.enter origin parent kind keep ownFile kind.ownsFrame).AllJoined := by
  intro id up p here
  obtain ⟨-, rfl, rfl⟩ | ⟨-, old⟩ := nodeEnter here
  · cases owns : kind.ownsFrame with
    | true => exact .inner owns (getEnterOld found) rfl rfl rfl
    | false => exact .shared starts owns (getEnterOld found) rfl rfl rfl rfl
  · exact (joined _ _ _ old).keep getEnterOld

theorem AllJoined.enterDirectory (joined : t.AllJoined) {origin : Nat} {parent : Snapshot} :
    (t.enterDirectory origin parent).AllJoined := by
  intro id up p here
  obtain ⟨-, rfl, rfl⟩ | ⟨-, old⟩ := nodeEnterDirectory here
  · exact .directory rfl rfl
  · exact (joined _ _ _ old).keep getEnterDirectoryOld

theorem AllJoined.leave (joined : t.AllJoined) (sound : t.Sound) (id up : Nat)
    (inner outer : Snapshot) : (t.leave id up inner outer).AllJoined := by
  intro other above p here
  obtain ⟨old, before⟩ := nodeBeforeLeave here
  have older := sound.above old
  refine (joined _ _ _ old).keep fun found => getLeaveOf found fun dropped => ?_
  have := before dropped
  omega

end ScopeTree

namespace ScopeOpening

@[simp] theorem ownsFrameKind (o : ScopeOpening) : o.kind.ownsFrame = o.ownFrame := by
  cases o <;> rfl

@[simp] theorem startsDirectoryKind (o : ScopeOpening) : o.kind.startsDirectory = false := by
  cases o <;> rfl

end ScopeOpening

theorem ScopeTree.AllJoined.step {t t' : ScopeTree} {u : ScopeUse} (joined : t.AllJoined)
    (sound : t.Sound) (step : t.Step u t') : t'.AllJoined := by
  cases step with
  | still => exact joined
  | enter o found =>
    rw [← o.ownsFrameKind]
    exact joined.enter found o.startsDirectoryKind _ _
  | enterDirectory found => exact joined.enterDirectory
  | leave here above => exact joined.leave sound _ _ _ _

theorem Scopes.Reachable.joined {s : Scopes} (reachable : s.Reachable) : s.tree.AllJoined := by
  induction reachable with
  | initial =>
    rw [Scopes.treeInitial]
    intro id up p here
    obtain ⟨rfl, same⟩ := Arena.nodeSingle here
    cases same
    exact .directory rfl rfl
  | use before u ih => exact ih.step before.sound (u.steps _)

namespace Scopes

variable {s s' : Scopes} {id : Nat} {here : Snapshot} {name other : String}
  {value : Option String}

/-- The snapshot lies in a function or in a scope of variables that was opened in its directory. -/
inductive Inside (s : Scopes) : Nat → Prop where
  | opened {id : Nat} {p : Snapshot} (live : s.snapshots.get? id = some p)
      (owns : p.kind.ownsFrame = true) : Inside s id
  | within {id up : Nat} {p : Snapshot} (here : s.snapshots.node? id = some (up, p))
      (starts : p.kind.startsDirectory = false) (outer : Inside s up) : Inside s id

theorem insideCases (reachable : s.Reachable) {id : Nat} {here : Snapshot}
    (live : s.snapshots.get? id = some here) :
    ¬s.Inside id ∧ here.scopeParent = here.directoryParent ∨
      s.Inside id ∧ here.scopeParent ≠ here.directoryParent ∧
        ∃ outer, s.snapshots.get? here.scopeParent = some outer ∧
          here.parentFrame = outer.frame ∧ here.rootFrame = outer.rootFrame := by
  induction id using Nat.strongRecOn generalizing here with
  | ind id ih =>
    have node : s.snapshots.node? id = some (s.snapshots.parent id, here) := Arena.getIffNode.mp live
    have inTree : s.tree.snapshots.node? id = some (s.snapshots.parent id, here.place) := by
      rw [nodeTree, node, Option.map_some]
    have top := (reachable.rooted.hung (liveTree live)).top
    cases reachable.joined _ _ _ inTree with
    | directory starts same =>
      refine .inl ⟨fun inside => ?_, same⟩
      cases inside with
      | opened there owns =>
        cases live.symm.trans there
        exact SnapshotKind.ownsInside owns starts
      | within there inner =>
        cases node.symm.trans there
        exact Bool.false_ne_true (inner.symm.trans starts)
    | inner owns found scope frame root =>
      rw [getTree] at found
      obtain ⟨outer, around, rfl⟩ := Option.map_eq_some_iff.mp found
      have placed := (reachable.sound.placed (liveTree around)).rootFrame
      refine .inr ⟨.opened live owns, fun same => ?_, outer, ?_, frame, root⟩
      · have equal := top.mp same
        rw [frame, root] at equal
        omega
      · exact scope ▸ around
    | shared starts owns found scope origin frame root =>
      rw [getTree] at found
      obtain ⟨outer, around, rfl⟩ := Option.map_eq_some_iff.mp found
      have insideIff : s.Inside id ↔ s.Inside (s.snapshots.parent id) := by
        refine ⟨fun inside => ?_, .within node starts⟩
        cases inside with
        | opened there opens =>
          cases live.symm.trans there
          exact absurd (opens.symm.trans owns) (by decide)
        | within there _ outwards =>
          cases node.symm.trans there
          exact outwards
      rw [insideIff, show here.scopeParent = outer.scopeParent from scope,
        show here.directoryParent = outer.directoryParent from origin,
        show here.parentFrame = outer.parentFrame from frame,
        show here.rootFrame = outer.rootFrame from root]
      exact ih _ (reachable.sound.above inTree) around

theorem definitionRaiseOther (raised : s.raise? id name value = some s') (different : name ≠ other)
    (place : Nat) : s'.definition? place other = s.definition? place other := by
  obtain ⟨here, live, ⟨-, above, -, rfl⟩ | ⟨-, rfl⟩⟩ := raiseCases raised
  · cases value with
    | none => exact definitionUndefine s above place different
    | some v => exact definitionDefine s above place different v
  · have localized : ({ s with frames := s.frames.localize here.frame here.rootFrame name } :
        Scopes).definition? place other = s.definition? place other := by
      unfold Variables.localize
      split
      · rfl
      · exact definitionModify _ _ _ fun b => by simp [different]
    rw [← localized, Variables.assign]
    exact definitionModify { s with frames := s.frames.localize .. } _ _ fun b => by
      simp [different]

structure Receives (s s' : Scopes) (id receiver : Nat) (name : String) (value : Option String) :
    Prop where
  there : (s'.snapshots.get? receiver).isSome
  shows : s'.definition? receiver name = value
  keeps : s'.definition? id name = s.definition? id name

theorem receivesInside (reachable : s.Reachable) (live : s.snapshots.get? id = some here)
    (inside : s.Inside id) (name : String) (value : Option String) :
    ∃ s', s.raise? id name value = some s' ∧ s.Receives s' id here.scopeParent name value := by
  obtain ⟨outside, -⟩ | ⟨-, below, outer, around, frame, root⟩ := insideCases reachable live
  · exact absurd inside outside
  · have rooted := reachable.rooted
    have sound := reachable.sound
    have inner : here.parentFrame ≠ here.rootFrame :=
      fun same => below ((rooted.hung (liveTree live)).top.mpr same)
    obtain ⟨s', raised, above⟩ := raiseBelowTop rooted live inner name value
    have snapshots := snapshotsRaise raised
    refine ⟨s', raised, ?_, ?_, definitionRaise sound rooted raised name⟩
    · simp [snapshots, around]
    · have seen := above name
      rwa [if_pos rfl, outerOf (snapshots ▸ live), frame, root,
        ← definitionOf (snapshots ▸ around)] at seen

theorem parentDirectoryOf (reachable : s.Reachable) (live : s.snapshots.get? id = some here) :
    s.parentDirectory? id =
      (s.directories.get? (s.directories.parent here.directory)).map Directory.current := by
  have outside := (reachable.rooted.hung (liveTree live)).outside
  rw [show here.place.directoryParent = here.directoryParent from rfl,
    show here.place.directory = here.directory from rfl, parentTree, getTree] at outside
  obtain ⟨base, none⟩ | ⟨q, origin, same⟩ := outside
  · simp [parentDirectory?, live, base, none, Arena.getZero]
  · obtain ⟨origin, there, rfl⟩ := Option.map_eq_some_iff.mp origin
    have bound := (Arena.getBounds there).1
    simp only [parentDirectory?, live, Option.bind_eq_bind, Option.bind_some, directory?, there,
      same]
    rw [if_neg (by omega)]
    rfl

theorem receivesOutside (reachable : s.Reachable) (live : s.snapshots.get? id = some here)
    (outside : ¬s.Inside id) {around : Directory}
    (above : s.directories.get? (s.directories.parent here.directory) = some around)
    (name : String) (value : Option String) :
    ∃ s', s.raise? id name value = some s' ∧ s.Receives s' id around.current name value := by
  obtain ⟨-, top⟩ | ⟨inside, -⟩ := insideCases reachable live
  · have receiver : s.parentDirectory? id = some around.current := by
      rw [parentDirectoryOf reachable live, above, Option.map_some]
    obtain ⟨outer, there, -⟩ := parentDirectoryCases reachable.sound reachable.rooted live receiver
    have raised : s.raise? id name value =
        some { s with frames := s.frames.assign outer.frame name value } := by
      simp only [raise?, live, Option.bind_eq_bind, Option.bind_some, if_pos top, receiver]
      cases value <;> simp only [define, undefine, there] <;> rfl
    refine ⟨_, raised, ?_, definitionAssigned reachable.sound reachable.rooted there name value,
      definitionRaise reachable.sound reachable.rooted raised name⟩
    simp [there]
  · exact absurd inside outside

/-- A raised value shows in the scope around the function or scope of variables, or in the current
scope of the directory around, and nowhere if there is none. No other name is touched. -/
theorem raiseReachesScopeAround (reachable : s.Reachable) (live : s.snapshots.get? id = some here)
    (name : String) (value : Option String) :
    let s' := (ScopeEdit.raise name value).apply s id
    (s.Inside id → (s.raise? id name value).isSome ∧
      s.Receives s' id here.scopeParent name value) ∧
    (¬s.Inside id → ∀ around,
      s.directories.get? (s.directories.parent here.directory) = some around →
        (s.raise? id name value).isSome ∧ s.Receives s' id around.current name value) ∧
    (¬s.Inside id → s.directories.get? (s.directories.parent here.directory) = none →
      s.raise? id name value = none ∧ s' = s) ∧
    ∀ other, name ≠ other → ∀ place, s'.definition? place other = s.definition? place other := by
  rw [ScopeEdit.apply]
  refine ⟨fun inside => ?_, fun outside around above => ?_, fun outside base => ?_,
    fun other different place => ?_⟩
  · obtain ⟨s', raised, receives⟩ := receivesInside reachable live inside name value
    simpa [raised] using receives
  · obtain ⟨s', raised, receives⟩ := receivesOutside reachable live outside above name value
    simpa [raised] using receives
  · obtain ⟨-, top⟩ | ⟨inside, -⟩ := insideCases reachable live
    · simp [raise?, live, top, parentDirectoryOf reachable live, base]
    · exact absurd inside outside
  · cases raised : s.raise? id name value with
    | none => rfl
    | some s' => exact definitionRaiseOther raised different place

def macroInFunction : Scopes :=
  initial.uses [.edit 1 (.define "x" "0"), .enter 1 (.functionCall "f"), .enter 2 (.macroCall "m"),
    .edit 3 (.undefine "x"), .enterDirectory 3]

theorem macroRaisesPastFunction :
    let raised (id : Nat) := (ScopeEdit.raise "x" (some "1")).apply macroInFunction id
    macroInFunction.Reachable ∧ macroInFunction.Inside 3 ∧ ¬macroInFunction.Inside 4 ∧
      ¬macroInFunction.Inside 1 ∧ macroInFunction.Receives (raised 3) 3 1 "x" (some "1") ∧
      macroInFunction.Receives (raised 4) 4 3 "x" (some "1") ∧ raised 1 = macroInFunction := by
  intro raised
  have reachable : macroInFunction.Reachable := Reachable.initial.uses _
  have atBase : (macroInFunction.snapshots.get? 1).map (fun p => (p.scopeParent,
      p.directoryParent, macroInFunction.directories.parent p.directory)) = some (0, 0, 0) := by
    decide +kernel
  have atMacro : (macroInFunction.snapshots.get? 3).map (fun p => (p.scopeParent,
      p.directoryParent)) = some (1, 0) := by
    decide +kernel
  have atTop : (macroInFunction.snapshots.get? 4).map (fun p => (p.scopeParent,
      p.directoryParent, macroInFunction.directories.parent p.directory)) = some (3, 3, 1) := by
    decide +kernel
  have current : (macroInFunction.directories.get? 1).map Directory.current = some 3 := by
    decide +kernel
  obtain ⟨base, liveBase, ofBase⟩ := Option.map_eq_some_iff.mp atBase
  obtain ⟨inner, liveMacro, ofMacro⟩ := Option.map_eq_some_iff.mp atMacro
  obtain ⟨top, liveTop, ofTop⟩ := Option.map_eq_some_iff.mp atTop
  obtain ⟨around, above, atCurrent⟩ := Option.map_eq_some_iff.mp current
  simp only [Prod.mk.injEq] at ofBase ofMacro ofTop
  obtain ⟨inside, macroScope⟩ : macroInFunction.Inside 3 ∧ inner.scopeParent = 1 := by
    obtain ⟨-, same⟩ | ⟨inside, -⟩ := insideCases reachable liveMacro
    · omega
    · exact ⟨inside, ofMacro.1⟩
  have outsideTop : ¬macroInFunction.Inside 4 := by
    obtain ⟨outside, -⟩ | ⟨-, different, -⟩ := insideCases reachable liveTop
    · exact outside
    · omega
  have outsideBase : ¬macroInFunction.Inside 1 := by
    obtain ⟨outside, -⟩ | ⟨-, different, -⟩ := insideCases reachable liveBase
    · exact outside
    · omega
  have fromMacro := (raiseReachesScopeAround reachable liveMacro "x" (some "1")).1 inside
  have fromTop := (raiseReachesScopeAround reachable liveTop "x" (some "1")).2.1 outsideTop around
    (by rw [ofTop.2.2, above])
  have fromBase := (raiseReachesScopeAround reachable liveBase "x" (some "1")).2.2.1 outsideBase
    (by rw [ofBase.2.2, Arena.getZero])
  rw [macroScope] at fromMacro
  rw [atCurrent] at fromTop
  exact ⟨reachable, inside, outsideTop, outsideBase, fromMacro.2, fromTop.2, fromBase.2⟩

end Scopes
end CMakeScript
