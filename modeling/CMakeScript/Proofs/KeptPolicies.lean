import CMakeScript.Proofs.ArenaHistory
import CMakeScript.Proofs.ClosedScopes
import CMakeScript.Proofs.DirectoryIsolation
import Mathlib.Data.List.Induction
/-! The policies that closed scopes show. Such a scope goes on standing on the frames that it was
left on, but a frame is dropped without a look at the scopes that stand on it. So one that it shares
with the scope around it can be taken away, and its name then be given to another frame. -/
namespace CMakeScript

/-- A use that drops the frame, the last one, from a scope that it was pushed in. -/
def ScopeUse.Takes (frame : Nat) (s : Scopes) : ScopeUse → Prop
  | edit id .popPolicy => s.policies.isLast frame = true ∧
      ∃ here ∈ s.snapshots.get? id, here.policies = frame ∧ here.policyScope ≠ frame
  | _ => False

instance (frame : Nat) (s : Scopes) (u : ScopeUse) : Decidable (u.Takes frame s) := by
  unfold ScopeUse.Takes
  split <;> infer_instance

def Rests (id : Nat) (uses : List ScopeUse) : Prop :=
  ∀ e, .edit id e ∈ uses → e.movesFrames = false

namespace Scopes

def Untaken (frame : Nat) (s : Scopes) (uses : List ScopeUse) : Prop :=
  Obeys (fun s u => ¬u.Takes frame s) s uses

instance (frame : Nat) (s : Scopes) (uses : List ScopeUse) : Decidable (s.Untaken frame uses) :=
  decidableObeys _ s uses

/-- The frames whose settings a scope shows, the innermost one first. -/
def policyWay (s : Scopes) (id : Nat) : List Nat :=
  ((s.snapshots.get? id).map fun here => (s.policies.ancestors here.policies).map Prod.fst).getD []

structure KeepsPolicies (s : Scopes) (id : Nat) (later : List ScopeUse) : Prop where
  way : (s.uses later).policyWay id = s.policyWay id
  there : ∀ frame ∈ s.policyWay id, ∀ seen, seen <+: later →
    (s.uses seen).policies.contains frame = true
  bound : ∀ {here}, (s.uses later).snapshots.get? id = some here →
    (s.uses later).policies.contains here.policyScope = true
  status : ∀ p, (s.uses later).policy id p = ((s.policyWay id).findSome? fun frame =>
    ((s.uses later).policies.get? frame).bind (·.settings.get? p)).getD .warn

structure Closes (s : Scopes) (id : Nat) (inner outer : Snapshot) (s₁ : Scopes) : Prop where
  here : s.snapshots.get? id = some inner
  above : s.snapshots.get? (s.snapshots.parent id) = some outer
  popped : s.pop id = .ok (s₁, s.snapshots.parent id)
  inTurn : outer.directory = inner.directory ∨ s.isCurrent (s.snapshots.parent id) = true
  stays : inner.keep = true ∨ s₁.snapshots.contains id = true

/-- One of the uses takes the frame that a scope stands on, which is closed by then. -/
def Strands (s : Scopes) (uses : List ScopeUse) (id frame : Nat) : Prop :=
  ∃ earlier u rest, uses = earlier ++ u :: rest ∧
    ((s.uses earlier).snapshots.get? id).map (·.policies) = some frame ∧
    ¬(s.uses earlier).tree.Open id ∧ u.Takes frame (s.uses earlier)

theorem usesAndOne (s : Scopes) (uses : List ScopeUse) (u : ScopeUse) :
    s.uses (uses ++ [u]) = u.apply (s.uses uses) := by
  rw [Scopes.uses, List.foldl_append]
  rfl

theorem obeysAndOne {rule : Scopes → ScopeUse → Prop} {s : Scopes} {uses : List ScopeUse}
    {u : ScopeUse} : Obeys rule s (uses ++ [u]) ↔ Obeys rule s uses ∧ rule (s.uses uses) u := by
  induction uses generalizing s with
  | nil => exact ⟨fun both => ⟨trivial, both.1⟩, fun both => ⟨both.2, trivial⟩⟩
  | cons first rest ih =>
    rw [List.cons_append, Obeys, Obeys, ih, and_assoc]
    rfl

end Scopes

theorem ScopeUse.takesView {s : Scopes} {u : ScopeUse} {frame : Nat} (takes : u.Takes frame s) :
    ∃ id bound, u = .edit id .popPolicy ∧
      s.policyView.scopes.get? id = some (frame, bound) ∧ frame ≠ bound ∧
      s.policyView.frames.isLast frame = true := by
  unfold Takes at takes
  split at takes
  · obtain ⟨last, here, found, rfl, inside⟩ := takes
    exact ⟨_, _, rfl, Scopes.standOf found, Ne.symm inside, (Arena.isLastMap ..).trans last⟩
  · exact takes.elim

theorem ScopeUse.takesOfView {s : Scopes} {id frame bound : Nat}
    (found : s.policyView.scopes.get? id = some (frame, bound)) (inside : frame ≠ bound)
    (last : s.policyView.frames.isLast frame = true) :
    (ScopeUse.edit id .popPolicy).Takes frame s := by
  rw [Scopes.getStand] at found
  obtain ⟨here, live, stand⟩ := Option.map_eq_some_iff.mp found
  cases stand
  exact ⟨(Arena.isLastMap ..).symm.trans last, here, live, rfl, inside.symm⟩

theorem ScopeUse.takesGone {s : Scopes} {u : ScopeUse} {frame : Nat} (takes : u.Takes frame s) :
    (u.apply s).policies.contains frame = false := by
  obtain ⟨id, bound, rfl, found, inside, last⟩ := takesView takes
  have view : (ScopeUse.apply s (.edit id .popPolicy)).policyView.frames.node? frame = none := by
    rw [apply, ScopeEdit.viewApply]
    simp only [PolicyView.edit, found, if_neg inside]
    rw [Arena.nodePop last, if_pos rfl]
  rw [Scopes.nodeWeak, Option.map_eq_none_iff] at view
  rw [Arena.contains, view]
  rfl

theorem ScopeUse.framesStay {s : Scopes} {u : ScopeUse} {frame : Nat}
    (known : frame ≤ s.policies.size) (untaken : ¬u.Takes frame s) :
    frame ≤ (u.apply s).policies.size ∧
      ∀ i ≤ frame, (u.apply s).policyView.frames.node? i = s.policyView.frames.node? i := by
  rw [← Scopes.sizeViewFrames] at known ⊢
  have stepped := u.viewApply s
  generalize (u.apply s).policyView = v at stepped ⊢
  cases stepped with
  | still | enter | leave => exact ⟨known, fun _ _ => rfl⟩
  | enterDirectory =>
    simp only [PolicyView.enterDirectory, Arena.sizePush]
    exact ⟨by omega, fun i below => Arena.nodePushOld (by omega)⟩
  | edit id e =>
    cases found : s.policyView.scopes.get? id with
    | none =>
      rw [PolicyView.editNone found]
      exact ⟨known, fun _ _ => rfl⟩
    | some stand =>
      obtain ⟨top, bound⟩ := stand
      simp only [PolicyView.edit, found]
      cases e with
      | pushPolicy =>
        simp only [Arena.sizePush]
        exact ⟨by omega, fun i below => Arena.nodePushOld (by omega)⟩
      | popPolicy =>
        dsimp only
        split
        case isTrue => exact ⟨known, fun _ _ => rfl⟩
        case isFalse inside =>
          have kept : frame ≤ (s.policyView.frames.pop top).1.size := by
            cases last : s.policyView.frames.isLast top with
            | false => simpa [Arena.pop, last] using known
            | true =>
              have other : frame ≠ top := by
                rintro rfl
                exact untaken (takesOfView found inside last)
              have := Arena.isLastIff.mp last
              rw [Arena.sizePop last]
              omega
          exact ⟨kept, fun i below => Arena.nodePopOld (by omega)⟩
      | _ => exact ⟨known, fun _ _ => rfl⟩

namespace Scopes

variable {s s₁ : Scopes} {id frame : Nat} {inner outer : Snapshot} {later : List ScopeUse}

theorem framesSpared (known : frame ≤ s.policies.size)
    (untaken : s.Untaken frame later) :
    frame ≤ (s.uses later).policies.size ∧
      ∀ i ≤ frame, (s.uses later).policyView.frames.node? i = s.policyView.frames.node? i := by
  induction later generalizing s with
  | nil => exact ⟨known, fun _ _ => rfl⟩
  | cons u rest ih =>
    obtain ⟨known, same⟩ := ScopeUse.framesStay known untaken.1
    obtain ⟨known, after⟩ := ih known untaken.2
    exact ⟨known, fun i below => (after i below).trans (same i below)⟩

theorem Untaken.front {seen : List ScopeUse} (untaken : s.Untaken frame later)
    (within : seen <+: later) : s.Untaken frame seen := by
  obtain ⟨rest, rfl⟩ := within
  induction seen generalizing s with
  | nil => exact trivial
  | cons u seen ih => exact ⟨untaken.1, ih untaken.2⟩

theorem thereIffUntaken (known : s.policies.contains frame = true) :
    (∀ seen, seen <+: later → (s.uses seen).policies.contains frame = true) ↔
      s.Untaken frame later := by
  constructor
  · intro there
    induction later generalizing s with
    | nil => exact trivial
    | cons u rest ih =>
      have next := there [u] (List.prefix_append [u] rest)
      refine ⟨fun takes => ?_, ih next fun seen within => there (u :: seen) ?_⟩
      · rw [show s.uses [u] = u.apply s from rfl, ScopeUse.takesGone takes] at next
        cases next
      · exact (List.prefix_cons_inj u).mpr within
  · intro untaken seen within
    have bounds := Arena.containsIff.mp known
    have kept := framesSpared bounds.2 (untaken.front within)
    exact Arena.containsIff.mpr ⟨bounds.1, kept.1⟩

theorem policyWayOf {here : Snapshot} (live : s.snapshots.get? id = some here) :
    s.policyWay id = (s.policyView.frames.ancestors here.policies).map Prod.fst := by
  simp [policyWay, live, policyView, Arena.ancestorsMap]

theorem wayKnown (falling : s.policies.Falling) {here : Snapshot}
    (live : s.snapshots.get? id = some here) :
    ∀ frame ∈ s.policyWay id, frame ≤ here.policies ∧ s.policies.contains frame = true := by
  intro frame member
  simp only [policyWay, live, Option.map_some, Option.getD_some] at member
  obtain ⟨node, inside, rfl⟩ := List.mem_map.mp member
  have found := Arena.ancestorsFound falling node inside
  exact ⟨Arena.ancestorsOlder falling node inside, Arena.containsIff.mpr (Arena.getBounds found)⟩

theorem policyAlongWay (falling : s.policies.Falling) (id : Nat) (p : Policy) :
    s.policy id p = ((s.policyWay id).findSome? fun frame =>
      (s.policies.get? frame).bind (·.settings.get? p)).getD .warn := by
  cases live : s.snapshots.get? id with
  | none => simp [policy, policyWay, live]
  | some here =>
    have found := @Arena.ancestorsFound _ s.policies falling here.policies
    simp only [policy, policyWay, live, Option.bind_some, Option.map_some, Option.getD_some,
      PolicyFrames.setting?, List.findSome?_map]
    congr 1
    generalize s.policies.ancestors here.policies = way at found
    induction way with
    | nil => rfl
    | cons node rest ih =>
      rw [List.findSome?_cons, List.findSome?_cons,
        ih fun node inside => found node (List.mem_cons_of_mem _ inside)]
      simp only [Function.comp_apply, found node List.mem_cons_self, Option.bind_some]

end Scopes

theorem ScopeUse.standBefore {s : Scopes} {u : ScopeUse} {id : Nat} {stand : Nat × Nat}
    (found : (u.apply s).policyView.scopes.get? id = some stand) (known : id ≤ s.snapshots.size)
    (rests : ∀ e, u = .edit id e → e.movesFrames = false) :
    s.policyView.scopes.get? id = some stand := by
  rw [← Scopes.sizeViewScopes] at known
  have stepped := u.viewApply s
  generalize (u.apply s).policyView = v at stepped found
  cases stepped with
  | still => exact found
  | enter =>
    rwa [PolicyView.enter, Arena.getPush, if_neg (by omega)] at found
  | enterDirectory =>
    rwa [PolicyView.enterDirectory, Arena.getPush, if_neg (by omega)] at found
  | leave last =>
    rw [Arena.getPop last] at found
    split at found
    · cases found
    · exact found
  | edit x e =>
    by_cases same : x = id
    · subst same
      rwa [PolicyView.editStill _ _ (rests e rfl)] at found
    · rwa [← ScopeEdit.viewApply, Scopes.getStand, ScopeEdit.getApplyOther (Ne.symm same),
        ← Scopes.getStand] at found

theorem ScopeUse.closedRests {s : Scopes} {u : ScopeUse} {id : Nat} (inTurn : u.InTurn s)
    (closed : ¬s.tree.Open id) : ∀ e, u = .edit id e → e.movesFrames = false := by
  rintro e rfl
  cases moves : e.movesFrames with
  | false => rfl
  | true =>
    obtain ⟨p, children, -, current⟩ := Scopes.isCurrentTree.mp (inTurn moves)
    exact absurd (.current current) closed

namespace Scopes

variable {s s₁ : Scopes} {id frame top bound : Nat} {inner outer : Snapshot}
  {later : List ScopeUse}

theorem liveOfStand {stand : Nat × Nat} (found : s.policyView.scopes.get? id = some stand) :
    ∃ here, s.snapshots.get? id = some here ∧ here.stand = stand := by
  rw [getStand] at found
  exact Option.map_eq_some_iff.mp found

theorem Orderly.uses (orderly : s.Orderly) (inTurn : Obeys ScopeUse.InTurn s later) :
    (s.uses later).Orderly := by
  induction later generalizing s with
  | nil => exact orderly
  | cons u rest ih => exact ih (orderly.use inTurn.1) inTurn.2

theorem standKnown {before : List ScopeUse} (inTurn : Obeys ScopeUse.InTurn initial before)
    (found : (initial.uses before).policyView.scopes.get? id = some (top, bound)) :
    0 < bound ∧ bound ≤ top ∧
      (top ≤ (initial.uses before).policies.size ∨ initial.Strands before id top) := by
  induction before using List.reverseRecOn with
  | nil =>
    rw [show initial.uses [] = initial from rfl, viewInitial] at found
    obtain ⟨rfl, same⟩ := Arena.nodeSingle (Arena.getIffNode.mp found)
    cases same
    exact ⟨by omega, Nat.le_refl 1, .inl (by decide)⟩
  | append_singleton earlier u ih =>
    obtain ⟨inTurn, last⟩ := obeysAndOne.mp inTurn
    have orderly := Orderly.initial.uses inTurn
    rw [usesAndOne] at found ⊢
    generalize same : initial.uses earlier = s at last orderly found ih ⊢
    by_cases opened : (u.apply s).tree.Open id
    · obtain ⟨positive, below, known⟩ := (orderly.use last).grounded.openStand opened found
      exact ⟨positive, below, .inl known⟩
    · obtain ⟨here, live, stand⟩ := liveOfStand found
      have older := (u.turn last).older orderly.reachable.sound (liveTree live) opened
      rw [sizeTreeSnapshots] at older
      have edited {x : Nat} {e : ScopeEdit} (edit : u = .edit x e) : ¬s.tree.Open id := by
        rwa [edit, ScopeUse.apply, ScopeEdit.treeApply] at opened
      have stood := ScopeUse.standBefore found older fun e edit =>
        ScopeUse.closedRests last (edited edit) e edit
      obtain ⟨positive, below, known⟩ := ih inTurn stood
      refine ⟨positive, below, ?_⟩
      obtain known | ⟨front, v, rest, split, before⟩ := known
      · by_cases takes : u.Takes top s
        · obtain ⟨_, _, edit, -⟩ := ScopeUse.takesView takes
          obtain ⟨there, live, stand⟩ := liveOfStand stood
          have stands : (s.snapshots.get? id).map (·.policies) = some top := by
            rw [live, Option.map_some, (Prod.mk.inj stand).1]
          subst same
          exact .inr ⟨earlier, u, [], rfl, stands, edited edit, takes⟩
        · exact .inl (ScopeUse.framesStay known takes).1
      · exact .inr ⟨front, v, rest ++ [u], by rw [split]; simp, before⟩

theorem Untaken.keeps (untaken : s.Untaken top later) (before : s.Grounded)
    (after : (s.uses later).Grounded) (stands : s.policyView.scopes.get? id = some (top, bound))
    (still : (s.uses later).policyView.scopes.get? id = some (top, bound)) (positive : 0 < bound)
    (below : bound ≤ top) (known : top ≤ s.policies.size) : s.KeepsPolicies id later := by
  obtain ⟨here, live, stand⟩ := liveOfStand stands
  obtain ⟨there, live', stand'⟩ := liveOfStand still
  cases stand
  obtain ⟨top, scope⟩ := Prod.mk.inj stand'
  obtain ⟨reaches, agree⟩ := framesSpared known untaken
  have way : (s.uses later).policyWay id = s.policyWay id := by
    rw [policyWayOf live, policyWayOf live', top,
      Arena.ancestorsAgree before.falling after.falling agree]
  constructor
  case way => exact way
  case there =>
    intro frame member seen within
    obtain ⟨older, here⟩ := wayKnown before.policiesFalling live frame member
    have kept := (framesSpared known (untaken.front within)).1
    have positive := (Arena.containsIff.mp here).1
    exact Arena.containsIff.mpr ⟨positive, by omega⟩
  case bound =>
    intro here found
    cases live'.symm.trans found
    rw [scope]
    exact Arena.containsIff.mpr ⟨positive, by omega⟩
  case status =>
    intro p
    rw [policyAlongWay after.policiesFalling, way]

theorem settledStand (orderly : s.Orderly) (settled : s.tree.Settled id)
    (inTurn : Obeys ScopeUse.InTurn s later) (rests : Rests id later) {stand : Nat × Nat}
    (found : s.policyView.scopes.get? id = some stand) :
    (s.uses later).policyView.scopes.get? id = some stand := by
  induction later generalizing s with
  | nil => exact found
  | cons u rest ih =>
    have after := (u.turn inTurn.1).settled orderly.reachable.sound settled
    refine ih (orderly.use inTurn.1) after inTurn.2
      (fun e member => rests e (List.mem_cons_of_mem u member)) ?_
    obtain ⟨p, live, -⟩ := after
    obtain ⟨here, live, -⟩ := Option.map_eq_some_iff.mp ((getTree ..).symm.trans live)
    have known := (Arena.getBounds found).2
    rw [sizeViewScopes] at known
    have before := ScopeUse.standBefore (standOf live) known fun e edit =>
      rests e (edit ▸ List.mem_cons_self)
    rw [standOf live, ← before, found]

theorem restsClosed (orderly : s.Orderly) (settled : s.tree.Settled id)
    (closed : ¬s.tree.Open id) (inTurn : Obeys ScopeUse.InTurn s later) : Rests id later := by
  induction later generalizing s with
  | nil => nofun
  | cons u rest ih =>
    have sound := orderly.reachable.sound
    have turn := u.turn inTurn.1
    have ⟨p, live, _⟩ := settled
    have after := ih (orderly.use inTurn.1) (turn.settled sound settled)
      (turn.closed sound (Arena.getBounds live).2 closed) inTurn.2
    intro e member
    rcases List.mem_cons.mp member with edit | member
    · exact ScopeUse.closedRests inTurn.1 closed e edit.symm
    · exact after e member

theorem ownerRests {owner : Nat → Nat} (sound : s.tree.Sound)
    (founded : s.tree.Founded s.policyView owner) (inTurn : Obeys ScopeUse.InTurn s later)
    (rests : Rests id later) (known : frame ≤ s.policies.size)
    (own : owner frame = id ∨ owner frame = 0) : s.Untaken frame later := by
  induction later generalizing s owner with
  | nil => exact trivial
  | cons u rest ih =>
    have untaken : ¬u.Takes frame s := by
      intro takes
      obtain ⟨x, bound, rfl, found, inside, -⟩ := ScopeUse.takesView takes
      obtain ⟨p, children, there, current⟩ := isCurrentTree.mp (inTurn.1 rfl)
      obtain ⟨⟨n, pushed⟩, -⟩ := founded (.current current) found
      have mine := pushed.own inside
      obtain own | none := own
      · obtain rfl := mine.symm.trans own
        cases rests .popPolicy List.mem_cons_self
      · have := (Arena.getBounds found).1
        omega
    obtain ⟨owner', founded', keeps⟩ := ScopeUse.foundedKeeps sound founded inTurn.1
    refine ⟨untaken, ih (ScopeUse.soundApply sound u) founded' inTurn.2
      (fun e member => rests e (List.mem_cons_of_mem u member))
      (ScopeUse.framesStay known untaken).1 ?_⟩
    obtain same | none := keeps frame known
    · rwa [same]
    · exact .inr none

namespace Closes

variable (closes : s.Closes id inner outer s₁)
include closes

theorem node : s.snapshots.node? id = some (s.snapshots.parent id, inner) :=
  Arena.getIffNode.mp closes.here

theorem inTree : s.tree.snapshots.node? id = some (s.snapshots.parent id, inner.place) := by
  rw [nodeTree, closes.node]
  rfl

theorem turn : (ScopeUse.leave id).InTurn s := by
  intro p q here above
  cases closes.here.symm.trans here
  cases closes.above.symm.trans above
  exact closes.inTurn

theorem orderly (before : s.Orderly) : s₁.Orderly := by
  have after := before.use (u := .leave id) closes.turn
  rwa [ScopeUse.apply, closes.popped] at after

theorem frames : s₁.policyView.frames = s.policyView.frames := standFramesPop closes.popped

theorem opened : s.tree.Open id := by
  obtain ⟨p, q, children, here, -, current, -⟩ := treePop closes.popped
  exact .current current

theorem left (sound : s.tree.Sound) : s₁.tree.Settled id ∧
    s₁.policyView.scopes.get? id = some inner.stand ∧
    (outer.directory = inner.directory → ¬s₁.tree.Open id) := by
  obtain ⟨p, q, -, here, above, -, tree⟩ := treePop closes.popped
  cases here.symm.trans closes.inTree
  cases above.symm.trans (liveTree closes.above)
  have settled : s₁.tree.Settled id := by
    rw [tree]
    refine ScopeTree.settledLeave sound closes.inTree above ?_
    refine closes.stays.imp_right fun live => ?_
    rw [Arena.containsIff] at live ⊢
    rwa [← tree, sizeTreeSnapshots]
  refine ⟨settled, ?_, fun same => ?_⟩
  · obtain ⟨_, live, -⟩ := settled
    obtain ⟨there, live, -⟩ := Option.map_eq_some_iff.mp ((getTree ..).symm.trans live)
    have before := standBeforePop closes.popped (standOf live)
    rw [standOf live, ← before, standOf closes.here]
    rfl
  · rw [tree]
    exact ScopeTree.notOpenLeave sound closes.inTree above same

theorem owned (orderly : s.Orderly) {owner : Nat → Nat}
    (founded : s.tree.Founded s.policyView owner)
    (own : inner.policies ≠ inner.policyScope ∨ outer.directory ≠ inner.directory) :
    owner inner.policies = id ∨ owner inner.policies = 0 := by
  obtain ⟨⟨n, pushed⟩, -, below⟩ := founded closes.opened (standOf closes.here)
  by_cases inside : inner.policies = inner.policyScope
  · have apart := own.resolve_left fun other => other inside
    rw [inside]
    obtain none | ⟨older, same⟩ := below
    · exact .inr none
    · obtain around | first := orderly.reachable.headed closes.inTree
      · rw [ScopeTree.directoryOfGet (liveTree closes.above)] at around
        exact absurd (Option.some.inj around) apart
      · rw [ScopeTree.directoryOfGet (Arena.getOfNode closes.inTree)] at same
        exact absurd same (first _ older)
  · exact .inl (pushed.own inside)

end Closes

/-- Scopes that are used in turn stand on frames that are there, unless the one that a scope stands on
was taken from it by one of the uses, when it was closed.
A scope that is closed stays where it stands, and no frame that is pushed later shows in it, as long
as no use takes the one that it was left on. A frame that was pushed in the scope itself is never
taken, nor is one that a whole directory was left on; the directory must not be given frames after
it was closed. -/
theorem closedScopesKeepPolicies {before : List ScopeUse}
    (inTurn : Obeys ScopeUse.InTurn initial before) :
    let s := initial.uses before
    (∀ {id here}, s.snapshots.get? id = some here →
      s.policies.contains here.policies = true ∧ s.policies.contains here.policyScope = true ∨
        initial.Strands before id here.policies) ∧
    ∀ {id inner outer s₁ later}, s.Closes id inner outer s₁ → Obeys ScopeUse.InTurn s₁ later →
      (outer.directory ≠ inner.directory → Rests id later) →
      ((s₁.uses later).snapshots.get? id).map Snapshot.stand = some inner.stand ∧
      ((∀ seen, seen <+: later → (s₁.uses seen).policies.contains inner.policies = true) ↔
        s₁.Untaken inner.policies later) ∧
      (s₁.Untaken inner.policies later → s₁.KeepsPolicies id later) ∧
      (inner.policies ≠ inner.policyScope ∨ outer.directory ≠ inner.directory →
        s₁.Untaken inner.policies later) := by
  intro s
  have orderly : s.Orderly := Orderly.initial.uses inTurn
  constructor
  · intro id here live
    obtain ⟨positive, below, known⟩ := standKnown inTurn (standOf live)
    refine known.imp_left fun known => ?_
    exact ⟨Arena.containsIff.mpr ⟨by omega, known⟩,
      Arena.containsIff.mpr ⟨positive, Nat.le_trans below known⟩⟩
  · intro id inner outer s₁ later closes inTurn directory
    have sound := orderly.reachable.sound
    have after := closes.orderly orderly
    obtain ⟨settled, stands, closed⟩ := closes.left sound
    have rests : Rests id later := by
      -- A scope left for another of its directory is not current there again, so it rests.
      by_cases same : outer.directory = inner.directory
      · exact restsClosed after settled (closed same) inTurn
      · exact directory same
    obtain ⟨positive, below, known⟩ :=
      orderly.grounded.openStand closes.opened (standOf closes.here)
    rw [← sizeViewFrames, ← closes.frames, sizeViewFrames] at known
    have there : s₁.policies.contains inner.policies = true :=
      Arena.containsIff.mpr ⟨by omega, known⟩
    have still := settledStand after settled inTurn rests stands
    refine ⟨(getStand ..).symm.trans still, thereIffUntaken there, fun untaken => ?_, fun own => ?_⟩
    · have afterwards := (after.uses inTurn).grounded
      exact untaken.keeps after.grounded afterwards stands still positive below known
    · obtain ⟨owner, founded⟩ := orderly.grounded.founded
      exact ownerRests after.reachable.sound (founded.leaveScope closes.popped closes.turn) inTurn
        rests known (closes.owned orderly founded own)

def includeWithPolicies : List ScopeUse :=
  [.edit 1 (.pushPolicy {} false), .enter 1 (.includeFile "a.cmake"),
    .edit 2 (.pushPolicy ⟨[(.cmp0054, .new)]⟩ false)]

def includedWithPolicies : Scopes := initial.uses includeWithPolicies

def policiesOutside : List ScopeUse :=
  [.edit 1 .popPolicy, .edit 1 (.pushPolicy ⟨[(.cmp0054, .old)]⟩ false)]

theorem includedFileKeepsPolicies : ∃ inner outer s₁,
    Obeys ScopeUse.InTurn initial includeWithPolicies ∧
    includedWithPolicies.Closes 2 inner outer s₁ ∧ Obeys ScopeUse.InTurn s₁ policiesOutside ∧
    inner.policies ≠ inner.policyScope ∧ s₁.KeepsPolicies 2 policiesOutside ∧
    s₁.policyWay 2 = [3, 2, 1] := by
  have current : (initial.uses [.edit 1 (.pushPolicy {} false)]).isCurrent 1 = true := by
    decide +kernel
  have before : Obeys ScopeUse.InTurn initial includeWithPolicies :=
    ⟨fun _ => by decide +kernel, current, fun _ => by decide +kernel, trivial⟩
  have included : (includedWithPolicies.snapshots.get? 2).map (fun p => (p.keep, p.stand)) =
      some (true, 3, 2) := by decide +kernel
  have directories : ((includedWithPolicies.snapshots.get?
      (includedWithPolicies.snapshots.parent 2)).map Snapshot.directory) =
      (includedWithPolicies.snapshots.get? 2).map Snapshot.directory := by decide +kernel
  have closing : includedWithPolicies.isCurrent 2 = true := by decide +kernel
  obtain ⟨inner, d, here, there, atInner⟩ := isCurrentIff.mp closing
  rw [here] at included directories
  obtain ⟨outer, above, same⟩ := Option.map_eq_some_iff.mp directories
  obtain ⟨keep, stand⟩ := Prod.mk.inj (Option.some.inj included)
  obtain ⟨top, bound⟩ := Prod.mk.inj stand
  have own : inner.policies ≠ inner.policyScope := by omega
  have popped := popOf (Arena.getIffNode.mp here) there atInner above
  generalize (includedWithPolicies.resume _ outer).reclaim 2 inner outer = s₁ at popped
  have left : (ScopeUse.leave 2).apply includedWithPolicies = s₁ := by rw [ScopeUse.apply, popped]
  subst left
  have closes : includedWithPolicies.Closes 2 inner outer _ :=
    ⟨here, above, popped, .inl same, .inl keep⟩
  have inTurn : Obeys ScopeUse.InTurn ((ScopeUse.leave 2).apply includedWithPolicies)
      policiesOutside := ⟨fun _ => by decide +kernel, fun _ => by decide +kernel, trivial⟩
  obtain ⟨-, -, keeps, untaken⟩ :=
    (closedScopesKeepPolicies before).2 closes inTurn fun other => absurd same other
  have way : ((ScopeUse.leave 2).apply includedWithPolicies).policyWay 2 = [3, 2, 1] := by
    decide +kernel
  exact ⟨inner, outer, _, before, closes, inTurn, own, keeps (untaken (.inl own)), way⟩

example :
    let included : List ScopeUse :=
      [.edit 1 (.pushPolicy {} false), .enter 1 (.includeFile "a.cmake"), .leave 2]
    let later : List ScopeUse :=
      [.edit 1 .popPolicy, .edit 1 (.pushPolicy ⟨[(.cmp0054, .new)]⟩ false)]
    (initial.uses included).policy 2 .cmp0054 = .warn ∧
      ¬(initial.uses included).Untaken 2 later ∧
      ((initial.uses included).uses later).policy 2 .cmp0054 = .new := by
  decide +kernel

end Scopes
end CMakeScript
