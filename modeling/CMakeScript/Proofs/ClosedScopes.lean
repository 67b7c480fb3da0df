import CMakeScript.Proofs.GroundedRuns
/-! Scopes that were closed and are still there, since they are kept or since they were not the last
ones any more. As long as scopes are opened and closed last in, first out, such a scope is never
current again and never goes away. -/
namespace CMakeScript
namespace ScopeTree

variable {t t' : ScopeTree} {id up : Nat} {inner outer : Snapshot}

inductive Turn (t : ScopeTree) : ScopeTree → Prop where
  | stay : Turn t t
  | enter {origin : Nat} {parent : Snapshot} {children : List Nat}
      (found : t.snapshots.get? origin = some parent)
      (current : t.directories.get? parent.directory = some (origin, children))
      (kind : SnapshotKind) (keep ownFile ownFrame : Bool) :
      Turn t (t.enter origin parent kind keep ownFile ownFrame)
  | enterDirectory {origin : Nat} {parent : Snapshot}
      (found : t.snapshots.get? origin = some parent) : Turn t (t.enterDirectory origin parent)
  | leave {id up : Nat} {inner outer : Snapshot} {children : List Nat}
      (here : t.snapshots.node? id = some (up, inner))
      (above : t.snapshots.get? up = some outer)
      (current : t.directories.get? inner.directory = some (id, children))
      (ordered : outer.directory = inner.directory ∨
        ∃ children, t.directories.get? outer.directory = some (up, children)) :
      Turn t (t.leave id up inner outer)

theorem Turn.closed (turn : t.Turn t') (sound : t.Sound) (known : id ≤ t.snapshots.size)
    (closed : ¬t.Open id) : ¬t'.Open id := by
  intro opened
  cases turn with
  | stay => exact closed opened
  | enter found current =>
    obtain new | before := openEnter sound found current _ _ _ _ opened
    · omega
    · exact closed before
  | enterDirectory found =>
    obtain new | before := openEnterDirectory sound found opened
    · omega
    · exact closed before
  | leave here above current ordered => exact closed (openLeave here above current ordered opened)

theorem Turn.older (turn : t.Turn t') (sound : t.Sound) {p : Snapshot}
    (live : t'.snapshots.get? id = some p) (closed : ¬t'.Open id) : id ≤ t.snapshots.size := by
  cases turn with
  | stay => exact (Arena.getBounds live).2
  | @enter origin parent children found current kind keep ownFile ownFrame =>
    obtain ⟨rfl, -⟩ | ⟨known, -⟩ := nodeEnter (Arena.getIffNode.mp live)
    · have there : (t.enter origin parent kind keep ownFile ownFrame).directories.get?
          parent.directory = some (t.snapshots.size + 1, children) := by
        rw [ScopeTree.enter, Arena.getModify, if_pos rfl, current]
        rfl
      exact absurd (.current there) closed
    · exact known
  | enterDirectory found =>
    obtain ⟨rfl, -⟩ | ⟨known, -⟩ := nodeEnterDirectory (Arena.getIffNode.mp live)
    · obtain ⟨_, _, -, there⟩ := currentOfDirectory sound found
      exact absurd (.current there) closed
    · exact known
  | leave => exact (Arena.nodeBounds (nodeBeforeLeave (Arena.getIffNode.mp live)).1).2

/-- A scope that nothing takes away: it is kept, or not open any more. -/
def Settled (t : ScopeTree) (id : Nat) : Prop :=
  ∃ p, t.snapshots.get? id = some p ∧ (p.keep = true ∨ ¬t.Open id)

theorem Turn.settled (turn : t.Turn t') (sound : t.Sound) (settled : t.Settled id) :
    t'.Settled id := by
  obtain ⟨p, live, stays⟩ := settled
  have known := (Arena.getBounds live).2
  refine ⟨p, ?_, stays.imp_right (turn.closed sound known)⟩
  cases turn with
  | stay => exact live
  | enter => exact getEnterOld live
  | enterDirectory => exact getEnterDirectoryOld live
  | leave here _ current =>
    refine getLeaveOf live ?_
    rintro dropped rfl
    cases (Arena.getOfNode here).symm.trans live
    rw [Bool.or_eq_false_iff] at dropped
    exact stays.elim (fun keep => by simp [keep] at dropped) fun closed => closed (.current current)

theorem notOpenLeave (sound : t.Sound) (here : t.snapshots.node? id = some (up, inner))
    (above : t.snapshots.get? up = some outer) (same : outer.directory = inner.directory) :
    ¬(t.leave id up inner outer).Open id := by
  intro opened
  obtain ⟨d, x, children, found, inside, bound⟩ := opened.bounded (sound.leave here above)
  obtain ⟨p, live, rfl⟩ := Option.map_eq_some_iff.mp inside
  have before := (nodeBeforeLeave (Arena.getIffNode.mp live)).1
  cases (Arena.getOfNode here).symm.trans (Arena.getOfNode before)
  rw [directoryLeave, if_pos same.symm] at found
  obtain ⟨_, -, current⟩ := Option.map_eq_some_iff.mp found
  cases current
  have below := sound.above here
  omega

theorem settledLeave (sound : t.Sound) (here : t.snapshots.node? id = some (up, inner))
    (above : t.snapshots.get? up = some outer)
    (stays : inner.keep = true ∨ (t.leave id up inner outer).snapshots.contains id = true) :
    (t.leave id up inner outer).Settled id := by
  have live : (t.leave id up inner outer).snapshots.get? id = some inner := by
    obtain keep | live := stays
    · exact getLeaveOf (Arena.getOfNode here) fun dropped => by simp [keep] at dropped
    · obtain ⟨⟨_, p⟩, there⟩ := Option.isSome_iff_exists.mp live
      cases here.symm.trans (nodeBeforeLeave there).1
      exact Arena.getOfNode there
  refine ⟨inner, live, ?_⟩
  cases keep : inner.keep with
  | true => exact .inl rfl
  | false =>
    obtain ⟨q, outside, same⟩ := sound.nested here keep
    cases above.symm.trans outside
    exact .inr (notOpenLeave sound here above same)

def Headed (t : ScopeTree) : Prop :=
  ∀ ⦃id up p⦄, t.snapshots.node? id = some (up, p) →
    t.directoryOf up = some p.directory ∨ ∀ older < id, t.directoryOf older ≠ some p.directory

theorem Headed.agree (headed : t.Headed) (sound : t.Sound) {p : Snapshot}
    (here : t.snapshots.node? id = some (up, p))
    (same : ∀ i < id, t'.directoryOf i = t.directoryOf i) :
    t'.directoryOf up = some p.directory ∨
      ∀ older < id, t'.directoryOf older ≠ some p.directory := by
  rw [same up (sound.above here)]
  exact (headed here).imp_right fun first older below => same older below ▸ first older below

theorem Headed.move (headed : t.Headed) (sound : t.Sound) (move : t.Move t') : t'.Headed := by
  cases move with
  | stay => exact headed
  | @enter origin parent found kind keep ownFile ownFrame =>
    intro id up p here
    obtain ⟨-, rfl, rfl⟩ | ⟨known, here⟩ := nodeEnter here
    · refine .inl ?_
      rw [directoryOfGet (getEnterOld found)]
      rfl
    · exact headed.agree sound here fun i below => directoryOfEnter _ _ _ _ _ (by omega)
  | @enterDirectory origin parent found =>
    intro id up p here
    obtain ⟨rfl, -, rfl⟩ | ⟨known, here⟩ := nodeEnterDirectory here
    · refine .inr fun older below inside => ?_
      rw [directoryOfEnterDirectory _ (by omega)] at inside
      obtain ⟨q, live, same⟩ := Option.map_eq_some_iff.mp inside
      have bounds := Arena.containsIff.mp (sound.placed live).directory
      simp only [directoryPlace] at same
      omega
    · exact headed.agree sound here fun i below => directoryOfEnterDirectory _ (by omega)
  | @leave x above inner outer _ _ =>
    intro id up p here
    obtain ⟨before, last⟩ := nodeBeforeLeave here
    refine headed.agree sound before fun i below => ?_
    rw [directoryOf, Arena.get?, nodeLeave, if_neg, ← Arena.get?, directoryOf]
    rintro ⟨dropped, rfl⟩
    have := last dropped
    omega

theorem headedInitial : Scopes.initial.tree.Headed := by
  rw [Scopes.treeInitial]
  intro id up p here
  obtain ⟨rfl, node⟩ := Arena.nodeSingle here
  cases node
  refine .inr fun older below inside => ?_
  obtain rfl : older = 0 := by omega
  cases inside

end ScopeTree
namespace Scopes

variable {s : Scopes}

theorem Reachable.headed (reachable : s.Reachable) : s.tree.Headed := by
  induction reachable with
  | initial => exact ScopeTree.headedInitial
  | use before u ih => exact ih.move before.sound (u.moves _)

theorem Orderly.grounded (orderly : s.Orderly) : s.Grounded := by
  induction orderly with
  | initial => exact groundedInitial
  | use _ inTurn ih => exact ScopeUse.groundedApply ih inTurn

end Scopes

theorem ScopeUse.turn {s : Scopes} {u : ScopeUse} (inTurn : u.InTurn s) :
    s.tree.Turn (u.apply s).tree := by
  have step := u.steps s
  generalize (u.apply s).tree = t at step ⊢
  cases step with
  | still => exact .stay
  | enter o found =>
    obtain ⟨p, children, there, current⟩ := Scopes.isCurrentTree.mp inTurn
    cases found.symm.trans there
    exact .enter found current ..
  | enterDirectory found => exact .enterDirectory found
  | leave here above current => exact .leave here above current (inTurn.ordered here above)

end CMakeScript
