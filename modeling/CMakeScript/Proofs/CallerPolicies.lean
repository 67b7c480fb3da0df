import CMakeScript.Proofs.PolicyOwners
import CMakeScript.Proofs.ScopeBrackets
/-! Policies across calls. As long as scopes are opened, used and closed last in, first out, every
open scope stands on frames that are there, and nothing done with the policies of a scope inside of
it takes one of them away. -/
namespace CMakeScript

namespace ScopeTree

def directoryOf (t : ScopeTree) (id : Nat) : Option Nat :=
  (t.snapshots.get? id).map (·.directory)

/-- The current scope of a directory is open, and so are those that it was opened in, as far as they
belong to the directory. -/
inductive Open (t : ScopeTree) : Nat → Prop where
  | current {d id : Nat} {children : List Nat}
      (found : t.directories.get? d = some (id, children)) : Open t id
  | outward {id up : Nat} {p : Snapshot} (inner : Open t id)
      (here : t.snapshots.node? id = some (up, p)) (same : t.directoryOf up = some p.directory) :
      Open t up

theorem directoryOfGet {t : ScopeTree} {id : Nat} {p : Snapshot}
    (found : t.snapshots.get? id = some p) : t.directoryOf id = some p.directory := by
  simp [directoryOf, found]

theorem directoryOfEnter {t : ScopeTree} {origin i : Nat} (parent : Snapshot) (kind : SnapshotKind)
    (keep ownFile ownFrame : Bool) (known : i ≤ t.snapshots.size) :
    (t.enter origin parent kind keep ownFile ownFrame).directoryOf i = t.directoryOf i := by
  rw [directoryOf, enter, Arena.getPush, if_neg (by omega), directoryOf]

theorem directoryOfEnterDirectory {t : ScopeTree} {origin i : Nat} (parent : Snapshot)
    (known : i ≤ t.snapshots.size) :
    (t.enterDirectory origin parent).directoryOf i = t.directoryOf i := by
  rw [directoryOf, enterDirectory, Arena.getPush, if_neg (by omega), directoryOf]

theorem Open.bounded {t : ScopeTree} (sound : t.Sound) {id : Nat} (opened : t.Open id) :
    ∃ d x children, t.directories.get? d = some (x, children) ∧ t.directoryOf id = some d ∧
      id ≤ x := by
  induction opened with
  | @current d id children found =>
    obtain ⟨p, there, rfl⟩ := sound.current found
    exact ⟨_, id, children, found, directoryOfGet there, Nat.le_refl id⟩
  | outward inner here same ih =>
    obtain ⟨d, x, children, found, inside, bound⟩ := ih
    rw [directoryOfGet (Arena.getOfNode here)] at inside
    have := sound.above here
    exact ⟨d, x, children, found, same.trans inside, by omega⟩

section Moves

variable {t : ScopeTree} {origin id up y : Nat} {parent inner outer : Snapshot}
  {children : List Nat}

theorem openEnter (sound : t.Sound) (found : t.snapshots.get? origin = some parent)
    (current : t.directories.get? parent.directory = some (origin, children))
    (kind : SnapshotKind) (keep ownFile ownFrame : Bool)
    (opened : (t.enter origin parent kind keep ownFile ownFrame).Open y) :
    y = t.snapshots.size + 1 ∨ t.Open y := by
  induction opened with
  | @current d id children found =>
    rw [enter, Arena.getModify] at found
    split at found
    · obtain ⟨before, -, same⟩ := Option.map_eq_some_iff.mp found
      cases same
      exact .inl rfl
    · exact .inr (.current found)
  | @outward id up p _ here same ih =>
    obtain ⟨-, rfl, rfl⟩ | ⟨known, here⟩ := nodeEnter here
    · exact .inr (.current current)
    · obtain rfl | inside := ih
      · omega
      · refine .inr (.outward inside here ?_)
        have older := sound.above here
        rwa [directoryOfEnter _ _ _ _ _ (by omega)] at same

theorem openEnterDirectory (sound : t.Sound) (found : t.snapshots.get? origin = some parent)
    (opened : (t.enterDirectory origin parent).Open y) :
    y = t.snapshots.size + 1 ∨ t.Open y := by
  induction opened with
  | @current d id children found =>
    obtain ⟨-, rfl, -⟩ | ⟨before, there, -⟩ := directoryEnterDirectory found
    · exact .inl rfl
    · exact .inr (.current there)
  | @outward id up p _ here same ih =>
    obtain ⟨-, rfl, rfl⟩ | ⟨known, here⟩ := nodeEnterDirectory here
    · rw [directoryOfGet (getEnterDirectoryOld found)] at same
      have inside := (Arena.containsIff.mp (sound.placed found).directory).2
      simp only [directoryPlace, Option.some.injEq] at same
      omega
    · obtain rfl | inside := ih
      · omega
      · refine .inr (.outward inside here ?_)
        have older := sound.above here
        rwa [directoryOfEnterDirectory _ (by omega)] at same

theorem openLeave (here : t.snapshots.node? id = some (up, inner))
    (above : t.snapshots.get? up = some outer)
    (current : t.directories.get? inner.directory = some (id, children))
    (ordered : outer.directory = inner.directory ∨
      ∃ children, t.directories.get? outer.directory = some (up, children))
    (opened : (t.leave id up inner outer).Open y) : t.Open y := by
  induction opened with
  | @current d x children found =>
    rw [directoryLeave] at found
    split at found
    · obtain ⟨before, -, same⟩ := Option.map_eq_some_iff.mp found
      cases same
      obtain same | ⟨children, atOuter⟩ := ordered
      · exact .outward (.current current) here (same ▸ directoryOfGet above)
      · exact .current atOuter
    · exact .current found
  | outward _ there same ih =>
    obtain ⟨p, live, within⟩ := Option.map_eq_some_iff.mp same
    have before := (nodeBeforeLeave (Arena.getIffNode.mp live)).1
    exact .outward ih (nodeBeforeLeave there).1
      (within ▸ directoryOfGet (Arena.getOfNode before))

end Moves
end ScopeTree

/-- A use in its turn: scopes are opened and given policy frames where they are current in their
directory, and a directory is closed only while the scope that it was opened in is current. -/
def ScopeUse.InTurn (s : Scopes) : ScopeUse → Prop
  | enter origin _ | enterDirectory origin => s.isCurrent origin = true
  | leave id => ∀ {inner outer}, s.snapshots.get? id = some inner →
      s.snapshots.get? (s.snapshots.parent id) = some outer →
      outer.directory = inner.directory ∨ s.isCurrent (s.snapshots.parent id) = true
  | edit id e => e.movesFrames = true → s.isCurrent id = true
  | _ => True

inductive Scopes.Orderly : Scopes → Prop where
  | initial : Orderly initial
  | use {s : Scopes} {u : ScopeUse} : Orderly s → u.InTurn s → Orderly (u.apply s)

theorem Scopes.Orderly.reachable {s : Scopes} (orderly : s.Orderly) : s.Reachable := by
  induction orderly with
  | initial => exact .initial
  | use _ _ ih => exact ih.use _

def ScopeTree.Founded (t : ScopeTree) (v : PolicyView) (owner : Nat → Nat) : Prop :=
  ∀ ⦃id top bound⦄, t.Open id → v.scopes.get? id = some (top, bound) →
    (∃ n, PolicyView.Pushed v.frames (fun i => owner i = id) bound top n) ∧
      v.frames.contains bound = true ∧
      (owner bound = 0 ∨ owner bound < id ∧ t.directoryOf (owner bound) = t.directoryOf id)

namespace ScopeTree

variable {t : ScopeTree} {v : PolicyView} {owner : Nat → Nat} {id top bound : Nat}

theorem Founded.notMine (founded : t.Founded v owner) (sound : t.Sound) {x d : Nat}
    {children : List Nat} (current : t.directories.get? d = some (x, children))
    (opened : t.Open id) (found : v.scopes.get? id = some (top, bound)) : owner bound ≠ x := by
  rintro rfl
  obtain ⟨p, there, rfl⟩ := sound.current current
  obtain none | ⟨below, same⟩ := (founded opened found).2.2
  · rw [none, Arena.getZero] at there
    cases there
  · obtain ⟨d, y, others, found, inside, young⟩ := opened.bounded sound
    rw [directoryOfGet there, inside] at same
    cases same
    rw [current] at found
    cases found
    omega

def disowned (owner : Nat → Nat) (id i : Nat) : Nat := if owner i = id then 0 else owner i

theorem disownedOther {i : Nat} (other : owner i ≠ id) : disowned owner id i = owner i :=
  if_neg other

theorem disownedSelf {i : Nat} (own : owner i = id) : disowned owner id i = 0 := if_pos own

theorem disownedCases (owner : Nat → Nat) (id i : Nat) :
    disowned owner id i = owner i ∨ disowned owner id i = 0 := by
  by_cases own : owner i = id
  · exact .inr (disownedSelf own)
  · exact .inl (disownedOther own)

theorem Founded.enter (founded : t.Founded v owner) (sound : t.Sound)
    (same : v.scopes.size = t.snapshots.size) {origin : Nat} {parent : Snapshot} {children : List Nat}
    (there : t.snapshots.get? origin = some parent)
    (current : t.directories.get? parent.directory = some (origin, children))
    (found : v.scopes.get? origin = some (top, bound)) (kind : SnapshotKind)
    (keep ownFile ownFrame : Bool) :
    (t.enter origin parent kind keep ownFile ownFrame).Founded (v.enter origin top)
      (disowned owner (t.snapshots.size + 1)) := by
  have young := (Arena.getBounds there).2
  have opened := Open.current current
  have oldDirectory {i : Nat} (known : i ≤ t.snapshots.size) :
      (t.enter origin parent kind keep ownFile ownFrame).directoryOf i = t.directoryOf i :=
    directoryOfEnter parent kind keep ownFile ownFrame known
  have kept {i : Nat} (known : i ≤ t.snapshots.size) {frame : Nat} (own : owner frame = i) :
      disowned owner (t.snapshots.size + 1) frame = i :=
    (disownedOther (by omega)).trans own
  obtain ⟨⟨n, pushed⟩, boundKnown, below⟩ := founded opened found
  intro id top' bound' opened' found'
  rw [PolicyView.enter, Arena.getPush] at found'
  split at found'
  -- The new scope has no frame of its own yet and stops where its origin stands.
  case isTrue new =>
    obtain rfl : id = t.snapshots.size + 1 := by omega
    cases found'
    have newDirectory : (t.enter origin parent kind keep ownFile ownFrame).directoryOf
        (t.snapshots.size + 1) = t.directoryOf origin := by
      rw [directoryOfGet getEnterNew, directoryOfGet there]
      rfl
    refine ⟨⟨0, .none⟩, pushed.known boundKnown, ?_⟩
    have owned : owner top = 0 ∨ owner top ≤ origin ∧ t.directoryOf (owner top) = t.directoryOf origin := by
      cases pushed with
      | none => exact below.imp_right fun below => ⟨Nat.le_of_lt below.1, below.2⟩
      | more _ own => exact .inr ⟨Nat.le_of_eq own, congrArg _ own⟩
    rw [disownedOther (by omega), newDirectory]
    refine owned.imp_right ?_
    rintro ⟨older, inside⟩
    exact ⟨by omega, by rw [oldDirectory (by omega), inside]⟩
  case isFalse =>
    have known := (Arena.getBounds found').2
    obtain new | inside := openEnter sound there current kind keep ownFile ownFrame opened'
    · omega
    · obtain ⟨⟨n, pushed⟩, boundKnown, below⟩ := founded inside found'
      refine ⟨⟨n, pushed.agree (fun _ _ _ _ => rfl) fun i _ _ own => kept (by omega) own⟩,
        boundKnown, ?_⟩
      rw [disownedOther (by omega)]
      refine below.imp_right ?_
      rintro ⟨older, inside⟩
      exact ⟨older, by rw [oldDirectory (by omega), oldDirectory (by omega), inside]⟩

theorem Founded.enterDirectory (founded : t.Founded v owner) (sound : t.Sound)
    (same : v.scopes.size = t.snapshots.size) {origin : Nat} {parent : Snapshot}
    (there : t.snapshots.get? origin = some parent) :
    (t.enterDirectory origin parent).Founded (v.enterDirectory origin top)
      (Function.update (disowned owner (t.snapshots.size + 1)) (v.frames.size + 1) 0) := by
  have young := (Arena.getBounds there).2
  intro id top' bound' opened' found'
  rw [PolicyView.enterDirectory, Arena.getPush] at found'
  split at found'
  case isTrue new =>
    cases found'
    exact ⟨⟨0, .none⟩, by simp [PolicyView.enterDirectory, Arena.containsIff],
      .inl (Function.update_self ..)⟩
  case isFalse =>
    have known := (Arena.getBounds found').2
    obtain new | inside := openEnterDirectory sound there opened'
    · omega
    · obtain ⟨⟨n, pushed⟩, boundKnown, below⟩ := founded inside found'
      have bounds := Arena.containsIff.mp boundKnown
      have kept {i : Nat} (old : i ≤ v.frames.size) (other : owner i ≠ t.snapshots.size + 1) :
          Function.update (disowned owner (t.snapshots.size + 1)) (v.frames.size + 1) 0 i =
            owner i := by
        rw [Function.update_of_ne (by omega), disownedOther other]
      refine ⟨⟨n, pushed.push (fun i old own => (kept old (by omega)).trans own) top false⟩, ?_, ?_⟩
      · rw [PolicyView.enterDirectory, Arena.containsIff, Arena.sizePush]
        omega
      · rw [kept bounds.2 (by omega)]
        refine below.imp_right ?_
        rintro ⟨older, inside⟩
        refine ⟨older, ?_⟩
        rw [directoryOfEnterDirectory _ (by omega), directoryOfEnterDirectory _ (by omega), inside]

theorem Founded.leave (founded : t.Founded v owner) {x up : Nat}
    {inner outer : Snapshot} {children : List Nat}
    (here : t.snapshots.node? x = some (up, inner)) (above : t.snapshots.get? up = some outer)
    (current : t.directories.get? inner.directory = some (x, children))
    (ordered : outer.directory = inner.directory ∨
      ∃ children, t.directories.get? outer.directory = some (up, children))
    {scopes : Arena (Nat × Nat)}
    (kept : ∀ {id stand}, scopes.get? id = some stand → v.scopes.get? id = some stand ∧
      (t.leave x up inner outer).snapshots.contains id = true) :
    (t.leave x up inner outer).Founded { v with scopes } owner := by
  have oldDirectory {i : Nat} (live : (t.leave x up inner outer).snapshots.contains i = true) :
      (t.leave x up inner outer).directoryOf i = t.directoryOf i := by
    obtain ⟨⟨above, p⟩, there⟩ := Option.isSome_iff_exists.mp live
    rw [directoryOfGet (Arena.getOfNode there),
      directoryOfGet (Arena.getOfNode (nodeBeforeLeave there).1)]
  intro id top bound opened found
  obtain ⟨before, live⟩ := kept found
  obtain ⟨pushed, boundKnown, below⟩ :=
    founded (openLeave here above current ordered opened) before
  refine ⟨pushed, boundKnown, Decidable.or_iff_not_imp_left.mpr fun owned => ?_⟩
  obtain ⟨older, inside⟩ := below.resolve_left owned
  have bounds := Arena.containsIff.mp live
  rw [oldDirectory live, oldDirectory (Arena.containsIff.mpr (by omega)), inside]
  exact ⟨older, rfl⟩

section Edits

variable {x d : Nat} {children : List Nat}

theorem Founded.push (founded : t.Founded v owner)
    (current : t.directories.get? d = some (x, children))
    (found : v.scopes.get? x = some (top, bound)) (settings : PolicySettings) (weak : Bool) :
    t.Founded (v.edit x (.pushPolicy settings weak))
      (Function.update owner (v.frames.size + 1) x) := by
  have fresh {i : Nat} (known : i ≤ v.frames.size) :
      Function.update owner (v.frames.size + 1) x i = owner i :=
    Function.update_of_ne (by omega) ..
  simp only [PolicyView.edit, found]
  intro id top' bound' opened found'
  have held : ∀ {top₀}, v.scopes.get? id = some (top₀, bound') →
      (v.frames.push top weak).1.contains bound' = true ∧
        (Function.update owner (v.frames.size + 1) x bound' = 0 ∨
          Function.update owner (v.frames.size + 1) x bound' < id ∧
            t.directoryOf (Function.update owner (v.frames.size + 1) x bound') =
              t.directoryOf id) := by
    intro top₀ before
    obtain ⟨-, boundKnown, below⟩ := founded opened before
    have bounds := Arena.containsIff.mp boundKnown
    rw [fresh bounds.2]
    refine ⟨?_, below⟩
    rw [Arena.containsIff, Arena.sizePush]
    omega
  rw [Arena.getModify] at found'
  split at found'
  case isTrue same =>
    subst same
    rw [found] at found'
    cases found'
    obtain ⟨⟨n, pushed⟩, -, -⟩ := founded opened found
    have still : ∀ i ≤ v.frames.size, owner i = id →
        Function.update owner (v.frames.size + 1) id i = id :=
      fun i known own => (fresh known).trans own
    obtain ⟨k, more, -⟩ := pushed.pushOwn still (Function.update_self ..) weak
    exact ⟨⟨k, more⟩, held found⟩
  case isFalse other =>
    obtain ⟨⟨n, pushed⟩, -, -⟩ := founded opened found'
    exact ⟨⟨n, pushed.push (fun i known own => (fresh known).trans own) top weak⟩, held found'⟩

theorem Founded.pop (founded : t.Founded v owner) (sound : t.Sound)
    (current : t.directories.get? d = some (x, children))
    (found : v.scopes.get? x = some (top, bound)) :
    t.Founded (v.edit x .popPolicy) owner := by
  simp only [PolicyView.edit, found]
  by_cases atBound : top = bound
  · rw [if_pos atBound]
    exact founded
  · rw [if_neg atBound]
    obtain ⟨⟨n, pushed⟩, -, -⟩ := founded (.current current) found
    have mine := pushed.own atBound
    have stays {i top' bound' : Nat} (opened : t.Open i)
        (there : v.scopes.get? i = some (top', bound')) :
        (v.frames.pop top).1.contains bound' = true := by
      have known := (founded opened there).2.1
      have other : bound' ≠ top := by
        rintro rfl
        exact founded.notMine sound current opened there mine
      rwa [Arena.contains, Arena.nodePopOther _ other]
    intro id top' bound' opened found'
    rw [Arena.getModify] at found'
    split at found'
    case isTrue same =>
      subst same
      rw [found] at found'
      cases found'
      exact ⟨⟨n - 1, pushed.popOwn atBound⟩, stays opened found, (founded opened found).2.2⟩
    case isFalse other =>
      obtain ⟨⟨k, kept⟩, -, below⟩ := founded opened found'
      exact ⟨⟨k, kept.pop fun own => other (own.symm.trans mine)⟩, stays opened found', below⟩

theorem Founded.mark (founded : t.Founded v owner)
    (current : t.directories.get? d = some (x, children))
    (found : v.scopes.get? x = some (top, bound)) :
    t.Founded (v.edit x .markPolicyScope) (disowned owner x) := by
  simp only [PolicyView.edit, found]
  intro id top' bound' opened found'
  rw [Arena.getModify] at found'
  split at found'
  case isTrue same =>
    subst same
    rw [found] at found'
    cases found'
    obtain ⟨⟨n, pushed⟩, boundKnown, below⟩ := founded opened found
    refine ⟨⟨0, .none⟩, pushed.known boundKnown, ?_⟩
    cases pushed with
    | none =>
      by_cases own : owner top = id
      · exact .inl (disownedSelf own)
      · rwa [disownedOther own]
    | more _ own => exact .inl (disownedSelf own)
  case isFalse other =>
    obtain ⟨⟨n, pushed⟩, boundKnown, below⟩ := founded opened found'
    refine ⟨⟨n, pushed.agree (fun _ _ _ _ => rfl) fun i _ _ own => ?_⟩, boundKnown, ?_⟩
    · exact (disownedOther (own ▸ other)).trans own
    · by_cases own : owner bound' = x
      · exact .inl (disownedSelf own)
      · rwa [disownedOther own]

end Edits
end ScopeTree

theorem Scopes.sizeTreeView (s : Scopes) :
    s.policyView.scopes.size = s.tree.snapshots.size := by
  simp

theorem Scopes.standBeforePop {s s' : Scopes} {id up other : Nat} {stand : Nat × Nat}
    (popped : s.pop id = .ok (s', up)) (found : s'.policyView.scopes.get? other = some stand) :
    s.policyView.scopes.get? other = some stand := by
  obtain view | ⟨last, view⟩ := viewPop popped
  · rwa [view] at found
  · rw [view, Arena.getPop last] at found
    split at found
    · cases found
    · exact found

theorem Scopes.standFramesPop {s s' : Scopes} {id up : Nat} (popped : s.pop id = .ok (s', up)) :
    s'.policyView.frames = s.policyView.frames := by
  obtain view | ⟨-, view⟩ := viewPop popped <;> rw [view]

theorem ScopeUse.InTurn.ordered {s : Scopes} {id up : Nat} {inner outer : Snapshot}
    (inTurn : (ScopeUse.leave id).InTurn s) (here : s.tree.snapshots.node? id = some (up, inner))
    (above : s.tree.snapshots.get? up = some outer) : outer.directory = inner.directory ∨
      ∃ children, s.tree.directories.get? outer.directory = some (up, children) := by
  obtain ⟨⟨_, p⟩, hereP, same⟩ := Option.map_eq_some_iff.mp (s.nodeTree id ▸ here)
  cases same
  obtain ⟨q, aboveQ, rfl⟩ := Option.map_eq_some_iff.mp (s.getTree _ ▸ above)
  have parent := Arena.parentOfNode hereP
  have around : s.snapshots.get? (s.snapshots.parent id) = some q := parent ▸ aboveQ
  refine (inTurn (Arena.getOfNode hereP) around).imp_right fun atOuter => ?_
  rw [parent, Scopes.isCurrentTree] at atOuter
  obtain ⟨p, children, found, there⟩ := atOuter
  cases above.symm.trans found
  exact ⟨children, there⟩

theorem ScopeTree.Founded.leaveScope {s s' : Scopes} {owner : Nat → Nat} {id up : Nat}
    (founded : s.tree.Founded s.policyView owner) (popped : s.pop id = .ok (s', up))
    (inTurn : (ScopeUse.leave id).InTurn s) : s'.tree.Founded s'.policyView owner := by
  obtain ⟨inner, outer, children, here, above, current, tree⟩ := Scopes.treePop popped
  have view : s'.policyView = ⟨s'.policyView.scopes, s.policyView.frames⟩ := by
    rw [← Scopes.standFramesPop popped]
  rw [view, tree]
  refine founded.leave here above current (inTurn.ordered here above) fun found =>
    ⟨Scopes.standBeforePop popped found, ?_⟩
  have bounds := Arena.getBounds found
  rwa [Scopes.sizeTreeView, ← Arena.containsIff, tree] at bounds

theorem ScopeEdit.foundedKeeps {s : Scopes} {owner : Nat → Nat} (sound : s.tree.Sound)
    (founded : s.tree.Founded s.policyView owner) {id : Nat} {e : ScopeEdit}
    (inTurn : e.movesFrames = true → s.isCurrent id = true) :
    ∃ owner', s.tree.Founded (s.policyView.edit id e) owner' ∧
      ∀ i ≤ s.policies.size, owner' i = owner i ∨ owner' i = 0 := by
  cases moves : e.movesFrames with
  | false =>
    rw [PolicyView.editStill _ _ moves]
    exact ⟨owner, founded, fun _ _ => .inl rfl⟩
  | true =>
    obtain ⟨p, children, there, current⟩ := Scopes.isCurrentTree.mp (inTurn moves)
    obtain ⟨here, found, rfl⟩ := Option.map_eq_some_iff.mp (s.getTree id ▸ there)
    have stands := Scopes.standOf found
    cases e with
    | pushPolicy settings weak =>
      refine ⟨_, founded.push current stands settings weak, fun i known => .inl ?_⟩
      rw [Scopes.sizeViewFrames, Function.update_of_ne (by omega)]
    | popPolicy => exact ⟨_, founded.pop sound current stands, fun _ _ => .inl rfl⟩
    | markPolicyScope =>
      exact ⟨_, founded.mark current stands, fun i _ => ScopeTree.disownedCases ..⟩
    | _ => cases moves

theorem ScopeUse.foundedKeeps {s : Scopes} {owner : Nat → Nat} (sound : s.tree.Sound)
    (founded : s.tree.Founded s.policyView owner) {u : ScopeUse} (inTurn : u.InTurn s) :
    ∃ owner', (u.apply s).tree.Founded (u.apply s).policyView owner' ∧
      ∀ i ≤ s.policies.size, owner' i = owner i ∨ owner' i = 0 := by
  cases u with
  | enter origin o =>
    rw [apply]
    split
    case h_1 created =>
      obtain ⟨top, bound, stands, -, view⟩ := Scopes.viewCreate created
      rw [ScopeOpening.createNested] at created
      obtain ⟨parent, found, -, -, tree⟩ := Scopes.treeCreateNested created
      obtain ⟨p, children, there, current⟩ := Scopes.isCurrentTree.mp inTurn
      cases (Scopes.liveTree found).symm.trans there
      rw [tree, view]
      exact ⟨_, founded.enter sound s.sizeTreeView there current stands ..,
        fun i _ => ScopeTree.disownedCases ..⟩
    case h_2 => exact ⟨owner, founded, fun _ _ => .inl rfl⟩
  | enterDirectory origin =>
    rw [apply]
    split
    case h_1 created =>
      obtain ⟨top, bound, stands, -, view⟩ := Scopes.viewCreateDirectory created
      obtain ⟨parent, found, -, tree⟩ := Scopes.treeCreateDirectory created
      rw [tree, view]
      refine ⟨_, founded.enterDirectory sound s.sizeTreeView (Scopes.liveTree found),
        fun i known => ?_⟩
      rw [Scopes.sizeViewFrames, Function.update_of_ne (by omega)]
      exact ScopeTree.disownedCases ..
    case h_2 => exact ⟨owner, founded, fun _ _ => .inl rfl⟩
  | leave id =>
    rw [apply]
    split
    case h_1 s' up popped => exact ⟨owner, founded.leaveScope popped inTurn, fun _ _ => .inl rfl⟩
    case h_2 => exact ⟨owner, founded, fun _ _ => .inl rfl⟩
  | edit id e =>
    rw [apply, ScopeEdit.treeApply, ScopeEdit.viewApply]
    exact ScopeEdit.foundedKeeps sound founded inTurn
  | setListFile id path =>
    rw [apply, Scopes.treeSetListFile, Scopes.viewSetListFile]
    exact ⟨owner, founded, fun _ _ => .inl rfl⟩
  | setLocations id source binary =>
    rw [apply, Scopes.treeSetLocations, Scopes.viewSetLocations]
    exact ⟨owner, founded, fun _ _ => .inl rfl⟩
  | describeDirectory id properties targetNames project =>
    rw [apply, Scopes.viewUpdateDirectory, Scopes.treeUpdateDirectory]
    · exact ⟨owner, founded, fun _ _ => .inl rfl⟩
    · exact fun _ => ⟨rfl, rfl⟩

theorem ScopeUse.foundedApply {s : Scopes} {owner : Nat → Nat} (sound : s.tree.Sound)
    (founded : s.tree.Founded s.policyView owner) {u : ScopeUse} (inTurn : u.InTurn s) :
    ∃ owner', (u.apply s).tree.Founded (u.apply s).policyView owner' :=
  (foundedKeeps sound founded inTurn).imp fun _ founded => founded.1

namespace Scopes

theorem viewInitial : initial.policyView = ⟨⟨#[(0, (1, 1))]⟩, ⟨#[(0, false)]⟩⟩ := by
  rw [initial, createBase, viewDefineDefaults, viewModifyDirectory]
  simp [policyView, Arena.push, Arena.map, Arena.empty, Snapshot.stand]

theorem foundedInitial : initial.tree.Founded initial.policyView fun _ => 0 := by
  rw [viewInitial]
  intro id top bound _ found
  obtain ⟨rfl, same⟩ := Arena.nodeSingle (Arena.getIffNode.mp found)
  cases same
  exact ⟨⟨0, .none⟩, rfl, .inl rfl⟩

theorem Orderly.founded {s : Scopes} (orderly : s.Orderly) :
    ∃ owner, s.tree.Founded s.policyView owner := by
  induction orderly with
  | initial => exact ⟨_, foundedInitial⟩
  | use before inTurn ih =>
    obtain ⟨owner, founded⟩ := ih
    exact ScopeUse.foundedApply before.reachable.sound founded inTurn

theorem Orderly.currentKnown {s : Scopes} (orderly : s.Orderly) {id : Nat} {here : Snapshot}
    (current : s.isCurrent id = true) (found : s.snapshots.get? id = some here) :
    s.policies.contains here.policies = true := by
  obtain ⟨owner, founded⟩ := orderly.founded
  obtain ⟨p, children, -, there⟩ := isCurrentTree.mp current
  obtain ⟨⟨n, pushed⟩, known, -⟩ := founded (.current there) (standOf found)
  have bounds := Arena.containsIff.mp (pushed.known known)
  rw [sizeViewFrames] at bounds
  exact Arena.containsIff.mpr bounds

inductive Created (s : Scopes) (origin : Nat) (t : Scopes) (id : Nat) : Prop where
  | nested {o : ScopeOpening} (created : o.create s origin = .ok (t, id))
  | directory (created : s.createDirectory origin = .ok (t, id))

theorem Created.since {s t : Scopes} {origin id : Nat} (created : s.Created origin t id)
    {here : Snapshot} (found : s.snapshots.get? origin = some here)
    (known : s.policies.contains here.policies = true) :
    PolicyView.Since t.policyView id 0 (fun _ => 0) t.policyView ∧ origin < id ∧
      t.policyView.scopes.get? origin = some (here.policies, here.policyScope) ∧
      ∀ {frame}, frame ≤ s.policies.size →
        frame ≤ t.policies.size ∧
          t.policyView.frames.node? frame = s.policyView.frames.node? frame := by
  have young := (Arena.getBounds found).2
  have bound := (Arena.containsIff.mp known).2
  have stands := standOf found
  cases created with
  | nested created =>
    obtain ⟨top, _, origin', rfl, view⟩ := viewCreate created
    rw [stands] at origin'
    cases origin'
    have size : t.policies.size = s.policies.size := by
      rw [← sizeViewFrames, view, PolicyView.enter, sizeViewFrames]
    rw [sizeViewScopes, size, view, PolicyView.enter]
    refine ⟨.begun here.policies ?_ ?_ ?_, by omega, ?_, fun old => ⟨old, rfl⟩⟩
    · simp
    · simp [Arena.getPush]
    · simpa using bound
    · rw [Arena.getPush, if_neg (by rw [sizeViewScopes]; omega), stands]
  | directory created =>
    obtain ⟨top, _, origin', rfl, view⟩ := viewCreateDirectory created
    rw [stands] at origin'
    cases origin'
    have size : t.policies.size = s.policies.size + 1 := by
      rw [← sizeViewFrames, view, PolicyView.enterDirectory, Arena.sizePush, sizeViewFrames]
    rw [sizeViewScopes, size, view, PolicyView.enterDirectory]
    refine ⟨.begun (s.policies.size + 1) ?_ ?_ ?_, by omega, ?_, fun old => ⟨by omega, ?_⟩⟩
    · simp
    · simp [Arena.getPush]
    · simp
    · rw [Arena.getPush, if_neg (by rw [sizeViewScopes]; omega), stands]
    · exact Arena.nodePushOld (by simpa using old)

theorem standPopOther {s s' : Scopes} {id up other : Nat} (popped : s.pop id = .ok (s', up))
    (different : other ≠ id) :
    s'.policyView.scopes.get? other = s.policyView.scopes.get? other := by
  obtain view | ⟨last, view⟩ := viewPop popped
  · rw [view]
  · rw [view, Arena.getPop last, if_neg different]

/-- A scope that is opened at the current scope cannot disturb its policies. Whatever is done with
policies in it and in scopes that are opened under it, the current scope stands on the same frames as
before, and a frame can be popped exactly if one was pushed that was not popped since. -/
theorem calleesKeepCallerPolicies {s t : Scopes} {origin c : Nat} (orderly : s.Orderly)
    (current : s.isCurrent origin = true) (created : s.Created origin t c) {uses : List ScopeUse}
    (under : ∀ u ∈ uses, u.Under c) :
    (∃ caller, s.snapshots.get? origin = some caller ∧
      s.policies.contains caller.policies = true ∧
      ∀ {t'}, t' = t.uses uses ∨ (∃ up, (t.uses uses).pop c = .ok (t', up)) →
        (t'.snapshots.get? origin).map (·.policies) = some caller.policies ∧
          ∀ {frame up f}, s.policies.node? frame = some (up, f) →
            ∃ f', t'.policies.node? frame = some (up, f') ∧ f'.weak = f.weak) ∧
    if uses.foldl (ScopeUse.pending c) 0 = 0 then
      (t.uses uses).popPolicy c = .ok none ∧
        (ScopeUse.edit c .popPolicy).apply (t.uses uses) = t.uses uses
    else ∃ t', (t.uses uses).popPolicy c = .ok (some t') := by
  obtain ⟨caller, _, found, -⟩ := isCurrentIff.mp current
  have known := orderly.currentKnown current found
  obtain ⟨started, older, stands, old⟩ := created.since found known
  obtain ⟨owner, since⟩ := started.run under
  constructor
  · refine ⟨caller, found, known, fun {t'} closed => ?_⟩
    have view : t'.policyView.scopes.get? origin = (t.uses uses).policyView.scopes.get? origin ∧
        t'.policyView.frames = (t.uses uses).policyView.frames := by
      obtain rfl | ⟨up, popped⟩ := closed
      · exact ⟨rfl, rfl⟩
      · exact ⟨standPopOther popped (by omega), standFramesPop popped⟩
    constructor
    · have same := view.1.trans ((since.scopes origin older).trans stands)
      rw [getStand] at same
      obtain ⟨here, live, stand⟩ := Option.map_eq_some_iff.mp same
      rw [live, Option.map_some, (Prod.mk.inj stand).1]
    · intro frame up f there
      obtain ⟨inside, kept⟩ := old (Arena.nodeBounds there).2
      have same : t'.policyView.frames.node? frame = some (up, f.weak) := by
        rw [view.2, since.frames frame (by simpa using inside), kept, nodeWeak, there]
        rfl
      rw [nodeWeak] at same
      obtain ⟨⟨up', f'⟩, live, node⟩ := Option.map_eq_some_iff.mp same
      obtain ⟨rfl, weak⟩ := Prod.mk.inj node
      exact ⟨f', live, weak⟩
  · obtain ⟨top, bound, here, -⟩ := since.here
    obtain ⟨n, pushed, count⟩ := since.own (Nat.le_refl c) here
    obtain rfl := count rfl
    rw [getStand] at here
    obtain ⟨inner, live, stand⟩ := Option.map_eq_some_iff.mp here
    cases stand
    have popped := viewPopPolicy live
    simp only [pushed.atBound] at popped
    split at popped
    case isTrue none =>
      rw [if_pos none]
      exact ⟨popped, by simp [ScopeUse.apply, ScopeEdit.apply, popped]⟩
    case isFalse some =>
      obtain ⟨t', popped, -⟩ := popped
      rw [if_neg some]
      exact ⟨t', popped⟩

def calledWithPolicies : List ScopeUse :=
  [.edit 3 (.pushPolicy {} true), .enter 3 .policyScope, .edit 4 (.pushPolicy {} false),
    .edit 4 (.setPolicy .cmp0054 .new), .leave 4, .edit 3 .popPolicy]

theorem directoryCallKeepsPolicies : ∃ s t : Scopes, s.Orderly ∧ s.isCurrent 2 = true ∧
    s.Created 2 t 3 ∧ (∀ u ∈ calledWithPolicies, u.Under 3) ∧
    (t.uses calledWithPolicies).popPolicy 3 = .ok none ∧
    ((t.uses calledWithPolicies).snapshots.get? 2).map (·.policies) = some 2 := by
  have outermost : initial.isCurrent 1 = true := by decide +kernel
  have orderly := Orderly.initial.use (u := .enterDirectory 1) outermost
  have current : ((ScopeUse.enterDirectory 1).apply initial).isCurrent 2 = true := by decide +kernel
  have stand : (((ScopeUse.enterDirectory 1).apply initial).snapshots.get? 2).map (·.policies) =
      some 2 := by decide +kernel
  have size : ((ScopeUse.enterDirectory 1).apply initial).snapshots.size = 2 := by decide +kernel
  obtain ⟨t, id, opened, -⟩ := createCurrent orderly.reachable.sound current (.functionCall "f")
  obtain ⟨-, -, -, new, -⟩ := viewCreate opened
  rw [sizeViewScopes, size] at new
  subst new
  have under : ∀ u ∈ calledWithPolicies, u.Under 3 := by simp [calledWithPolicies, ScopeUse.Under]
  obtain ⟨⟨caller, found, -, kept⟩, popped⟩ :=
    calleesKeepCallerPolicies orderly current (.nested opened) under
  rw [found] at stand
  refine ⟨_, t, orderly, current, .nested opened, under, ?_, (kept (.inl rfl)).1.trans stand⟩
  rw [if_pos (by decide)] at popped
  exact popped.1

end Scopes
end CMakeScript
