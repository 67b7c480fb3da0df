import CMakeScript.Proofs.Discipline
import CMakeScript.Proofs.Propagation
/-! The scope that a run comes back to. Whatever commands are run, and in whatever directories, once
the scopes that they opened are closed the run is in the scope again in which it set out, unless it
has to stop. -/
namespace CMakeScript

namespace ScopeTree

/-- From a snapshot up to another one around it, through these. -/
inductive Climbs (t : ScopeTree) (top : Nat) : Nat → List Nat → Prop where
  | here : Climbs t top top []
  | up {id up : Nat} {p : Snapshot} {rest : List Nat}
    (node : t.snapshots.node? id = some (up, p)) (further : Climbs t top up rest) :
    Climbs t top id (id :: rest)

def Grows (t t' : ScopeTree) : Prop :=
  ∀ ⦃id node⦄, t.snapshots.node? id = some node → t'.snapshots.node? id = some node

variable {t t' : ScopeTree} {top here id up : Nat} {ids : List Nat}
  {p inner outer parent : Snapshot}

theorem Climbs.kept (climbs : t.Climbs top here ids)
    (kept : ∀ id ∈ ids, ∀ node, t.snapshots.node? id = some node →
      t'.snapshots.node? id = some node) : t'.Climbs top here ids := by
  induction climbs with
  | here => exact .here
  | @up id up p rest node further ih =>
    exact .up (kept id (List.mem_cons_self ..) _ node)
      (ih fun id member => kept id (List.mem_cons_of_mem _ member))

theorem Climbs.grows (climbs : t.Climbs top here ids) (grows : t.Grows t') :
    t'.Climbs top here ids :=
  climbs.kept fun _ _ _ node => grows node

theorem Climbs.back (climbs : t.Climbs top here []) : here = top := by
  cases climbs
  rfl

theorem Climbs.above (climbs : t.Climbs top here (id :: ids))
    (node : t.snapshots.node? here = some (up, p)) : id = here ∧ t.Climbs top up ids := by
  cases climbs with
  | up node' further =>
    cases node.symm.trans node'
    exact ⟨rfl, further⟩

theorem growsEnter (origin : Nat) (parent : Snapshot) (kind : SnapshotKind)
    (keep ownFile ownFrame : Bool) :
    t.Grows (t.enter origin parent kind keep ownFile ownFrame) := fun _ _ node =>
  (Arena.nodePushOld (Arena.nodeBounds node).2).trans node

theorem Climbs.enter (climbs : t.Climbs top here ids) (parent : Snapshot) (kind : SnapshotKind)
    (keep ownFile ownFrame : Bool) :
    (t.enter here parent kind keep ownFile ownFrame).Climbs top (t.snapshots.size + 1)
      ((t.snapshots.size + 1) :: ids) :=
  .up (Arena.nodePushNew ..) (climbs.grows (growsEnter ..))

theorem Grows.next (grows : t.Grows t') : t.snapshots.node? (t'.snapshots.size + 1) = none := by
  refine Option.eq_none_iff_forall_ne_some.mpr fun node there => ?_
  have bound := (Arena.nodeBounds (grows there)).2
  omega

theorem nodeLeaveOther {node : Nat × Snapshot} (there : t.snapshots.node? id = some node)
    {closed : Nat} (different : id ≠ closed) :
    (t.leave closed up inner outer).snapshots.node? id = some node := by
  rw [nodeLeave, if_neg fun gone => different gone.2, there]

theorem Below.grows {own : Bool} (below : t.Below own id) (grows : t.Grows t') :
    t'.Below own id := by
  obtain ⟨up, p, q, node, above, rest⟩ := below
  exact ⟨up, p, q, grows node, Arena.getOfNode (grows (Arena.getIffNode.mp above)), rest⟩

end ScopeTree
namespace Engine

variable {e e' start : Engine} {handles : List (Nat × Bool)}

theorem seatsIssueAt (e : Engine) (kind : MessageKind) (text : String) (trace : Backtrace) :
    (e.issueAt kind text trace).seat? = e.seat? := by
  obtain ⟨nested, written, errorOccurred, issued, -⟩ := issueAtCases e kind text trace
  rw [issued]
  rfl

theorem seatsEdits (edits : Edits e e') : e'.seat? = e.seat? := by
  induction edits with
  | refl => rfl
  | @tail e₁ _ _ last ih =>
    refine Eq.trans ?_ ih
    cases last with
    | issue => exact seatsIssueAt ..
    | lost => exact seatsIssueAt ..
    | display =>
      unfold display
      split <;> rfl
    | queue => exact seatsChange ..
    | _ => rfl

theorem seatsTurns (turns : Turns e e') :
    e'.current = e.current ∧ ∀ i ≠ e.current, e'.seat? i = e.seat? i := by
  refine turns.carry (P := fun e e' => e'.current = e.current ∧ ∀ i ≠ e.current,
    e'.seat? i = e.seat? i) (fun _ => ⟨rfl, fun _ _ => rfl⟩) (fun first second => ?_)
    fun {e e'} turn => ?_
  · exact ⟨second.1.trans first.1, fun i other =>
      (second.2 i (first.1 ▸ other)).trans (first.2 i other)⟩
  · refine ⟨(Quiet.turns (.one turn)).current, fun i other => ?_⟩
    cases turn with
    | upkeep edits => rw [seatsEdits edits]
    | counts counts =>
      cases counts
      rfl
    | scope =>
      simp only [seat?, logged, setSnapshot, Array.getElem?_modify, if_neg other.symm]
    | blocks => rfl
    | refused error =>
      have same : (e.internalError error).seat? = e.seat? := seatsIssueAt ..
      rw [same]

/-- Between two states a directory has gone down from its scope into the scopes with these handles,
and everything else is where it was. -/
structure Descends (start : Engine) (handles : List (Nat × Bool)) (e : Engine) : Prop where
  running : start.fatal = false
  placed : start.current < start.runs.size
  housed : e.Housed handles []
  climbs : ∃ ids, ids.Perm (handles.map Prod.fst) ∧
    e.scopes.tree.Climbs start.snapshot e.snapshot ids
  grows : start.scopes.tree.Grows e.scopes.tree
  fresh : ∀ handle ∈ handles, start.scopes.tree.snapshots.node? handle.1 = none
  current : e.current = start.current
  elsewhere : ∀ i < start.runs.size, i ≠ start.current → e.seat? i = start.seat? i
  processed : start.runs.size ≤ e.runs.size

def Returns (start : Engine) (handles : List (Nat × Bool)) (e : Engine) : Prop :=
  e.fatal = true ∨ start.Descends handles e

namespace Descends

theorem begun (running : e.fatal = false) (placed : e.current < e.runs.size)
    (housed : e.Housed handles []) : e.Descends [] e where
  running := running
  placed := placed
  housed := ⟨housed.grounded, housed.rooted, nofun, .nil, nofun⟩
  climbs := ⟨[], .nil, .here⟩
  grows _ _ node := node
  fresh := nofun
  current := rfl
  elsewhere _ _ _ := rfl
  processed := Nat.le_refl _

theorem here (descends : start.Descends handles e) : e.current < e.runs.size :=
  descends.current ▸ Nat.lt_of_lt_of_le descends.placed descends.processed

theorem back (descends : start.Descends [] e) : e.snapshot = start.snapshot := by
  obtain ⟨ids, none, climbs⟩ := descends.climbs
  cases List.perm_nil.mp none
  exact climbs.back

theorem reordered (descends : start.Descends handles e) {handles' : List (Nat × Bool)}
    (same : handles.Perm handles') : start.Descends handles' e := by
  obtain ⟨ids, known, climbs⟩ := descends.climbs
  exact { descends with
    housed := descends.housed.reordered same
    climbs := ⟨ids, known.trans (same.map Prod.fst), climbs⟩
    fresh := fun handle member => descends.fresh handle (same.mem_iff.mpr member) }

theorem retained (descends : start.Descends handles e) (tree : e'.scopes.tree = e.scopes.tree)
    (snapshot : e'.snapshot = e.snapshot) (grounded : e.Grounded → e'.Grounded)
    (current : e'.current = e.current) (seats : e'.seat? = e.seat?)
    (processed : e'.runs.size = e.runs.size) : start.Descends handles e' where
  running := descends.running
  placed := descends.placed
  housed := descends.housed.retained tree (grounded descends.housed.grounded) nofun
  climbs := by
    rw [tree, snapshot]
    exact descends.climbs
  grows := tree ▸ descends.grows
  fresh := descends.fresh
  current := current.trans descends.current
  elsewhere i known other := by
    rw [seats]
    exact descends.elsewhere i known other
  processed := processed ▸ descends.processed

theorem edits (descends : start.Descends handles e) (edits : Edits e e') :
    start.Descends handles e' :=
  descends.retained edits.tree edits.snapshot (fun grounded => grounded.edits edits)
    (Quiet.edits edits).current (seatsEdits edits) (Quiet.edits edits).processed

theorem other (descends : start.Descends handles e) (scopes : e'.scopes = e.scopes)
    (runs : e'.runs = e.runs) (current : e'.current = e.current) : start.Descends handles e' := by
  have seats : e'.seat? = e.seat? := by
    unfold seat?
    rw [runs]
  have snapshot : e'.snapshot = e.snapshot := by
    unfold Engine.snapshot
    rw [runs, current]
  exact descends.retained (congrArg Scopes.tree scopes) snapshot
    (fun grounded => grounded.same scopes seats) current seats (congrArg Array.size runs)

theorem others (descends : start.Descends handles e) (turns : Turns e e') :
    e'.current = start.current ∧
      (∀ i < start.runs.size, i ≠ start.current → e'.seat? i = start.seat? i) ∧
      start.runs.size ≤ e'.runs.size := by
  obtain ⟨current, seats⟩ := seatsTurns turns
  refine ⟨current.trans descends.current, fun i known other => ?_, ?_⟩
  · rw [seats i (descends.current ▸ other)]
    exact descends.elsewhere i known other
  · rw [(Quiet.turns turns).processed]
    exact descends.processed

end Descends
namespace Returns

theorem openScope (returns : start.Returns handles e) (o : ScopeOpening) :
    start.Returns (held (e.openScope o.create).1 o.ownFrame ++ handles)
      (e.openScope o.create).2 := by
  obtain stops | descends := returns
  · exact .inl ((Steady.turns (.openScope e o)).fatal stops)
  have kept := Kept.openScope (.inr descends.housed) o
  obtain ⟨current, elsewhere, processed⟩ := descends.others (.openScope e o)
  cases created : o.create e.scopes e.snapshot with
  | error error =>
    refine .inl ?_
    unfold Engine.openScope
    rw [created]
    rfl
  | ok result =>
    obtain ⟨scopes, id⟩ := result
    have opened : e.openScope o.create =
        (some id, (({ e with scopes } : Engine).setSnapshot id).logged (.scopeOpened id)) := by
      unfold Engine.openScope
      rw [created]
    rw [opened] at kept current elsewhere processed ⊢
    refine kept.imp_right fun housed => ?_
    rw [ScopeOpening.createNested] at created
    obtain ⟨parent, found, rfl, -, tree⟩ := Scopes.treeCreateNested created
    have placed := placedFound found
    obtain ⟨ids, known, climbs⟩ := descends.climbs
    have grows : e.scopes.tree.Grows scopes.tree := tree ▸ ScopeTree.growsEnter ..
    constructor
    case running => exact descends.running
    case placed => exact descends.placed
    case housed => exact housed
    case climbs =>
      refine ⟨_, .cons _ known, ?_⟩
      rw [snapshotMoved placed, ← Scopes.sizeTreeSnapshots]
      exact tree ▸ climbs.enter ..
    case grows => exact fun _ _ node => grows (descends.grows node)
    case fresh =>
      intro handle member
      obtain rfl | older := List.mem_cons.mp member
      · rw [← Scopes.sizeTreeSnapshots]
        exact descends.grows.next
      · exact descends.fresh handle older
    case current => exact current
    case elsewhere => exact elsewhere
    case processed => exact processed

theorem closeScope {handle : ScopeHandle} {own : Bool}
    (returns : start.Returns (held handle own ++ handles) e) (report : Bool) :
    start.Returns handles (e.closeScope handle report) := by
  obtain stops | descends := returns
  · exact .inl ((Steady.turns (.closeScope e handle report)).fatal stops)
  cases handle with
  | none => exact .inr descends
  | some id =>
    have kept := Kept.closeScope (.inr descends.housed) (fun _ => .none e) report
    obtain ⟨current, elsewhere, processed⟩ := descends.others (.closeScope e (some id) report)
    obtain ⟨apart, -⟩ := List.nodup_cons.mp descends.housed.distinct
    have new := descends.fresh (id, own) (List.mem_cons_self ..)
    obtain stops | ⟨here, e₁, scopes, up, views, popped, closed⟩ := closeScopeCases e id report
    · exact .inl stops
    · rw [closed] at kept current elsewhere processed ⊢
      refine kept.imp_right fun housed => ?_
      obtain ⟨p, q, -, found, above, -, tree⟩ := Scopes.treePop popped
      obtain ⟨ids, known, climbs⟩ := descends.climbs
      have stay {other : Nat} {node : Nat × Snapshot} (different : other ≠ id)
          (there : e.scopes.tree.snapshots.node? other = some node) :
          scopes.tree.snapshots.node? other = some node := by
        rw [tree]
        exact ScopeTree.nodeLeaveOther (views.tree ▸ there) different
      constructor
      case running => exact descends.running
      case placed => exact descends.placed
      case housed => exact housed
      case climbs =>
        cases ids with
        | nil => cases List.nil_perm.mp known
        | cons top rest =>
          rw [views.tree] at found
          subst here
          obtain ⟨rfl, outer⟩ := climbs.above found
          have further := (List.perm_cons _).mp known
          have placed : e₁.current < e₁.runs.size :=
            placedSnapshot (views.snapshot ▸ (Arena.nodeBounds found).1)
          rw [snapshotMoved placed]
          refine ⟨rest, further, outer.kept fun other member node => stay ?_⟩
          rintro rfl
          exact apart (further.mem_iff.mp member)
      case grows =>
        intro other node there
        refine stay ?_ (descends.grows there)
        rintro rfl
        cases new.symm.trans there
      case fresh => exact fun handle member => descends.fresh handle (List.mem_cons_of_mem _ member)
      case current => exact current
      case elsewhere => exact elsewhere
      case processed => exact processed

theorem reordered (returns : start.Returns handles e) {handles' : List (Nat × Bool)}
    (same : handles.Perm handles') : start.Returns handles' e :=
  returns.imp_right fun descends => descends.reordered same

theorem edits (returns : start.Returns handles e) (edits : Edits e e') :
    start.Returns handles e' :=
  returns.imp (Steady.edits edits).fatal fun descends => descends.edits edits

theorem other (returns : start.Returns handles e) (scopes : e'.scopes = e.scopes)
    (runs : e'.runs = e.runs) (current : e'.current = e.current)
    (fatal : e.fatal = true → e'.fatal = true) : start.Returns handles e' :=
  returns.imp fatal fun descends => descends.other scopes runs current

theorem counts (returns : start.Returns handles e) (counts : e.Counts e') :
    start.Returns handles e' := by
  cases counts
  exact other returns rfl rfl rfl id

theorem closeBlockScopes {policies bindings : Option ScopeHandle} {propagate : List String}
    (returns : start.Returns ((Block.scope policies bindings propagate).handles ++ handles) e) :
    start.Returns handles (e.closeBlockScopes policies bindings propagate) := by
  have inner : start.Returns (policies.join.toList.map (·, false) ++ handles)
      (e.closeBlockScopes none bindings propagate) := by
    rw [Block.handles, List.append_assoc] at returns
    cases bindings with
    | none => exact returns
    | some handle =>
      have raised : start.Returns (held handle true ++
          (policies.join.toList.map (·, false) ++ handles)) _ :=
        (returns.edits (.raiseAll e propagate)).counts (.closeLoopBarrier _)
      exact closeScope raised true
  cases policies with
  | none => exact inner
  | some handle =>
    have popped : start.Returns (held handle false ++ handles) _ := inner.edits (.popPolicy _)
    exact closeScope popped true

theorem abandon {b : Block} (returns : start.Returns (b.handles ++ handles) e) :
    start.Returns handles (e.abandon b) := by
  cases b with
  | scope => exact closeBlockScopes returns
  | conditional => exact returns
  | definition => exact returns
  | whileLoop => exact counts returns (.closeLoop e)
  | foreachLoop => exact counts returns (.closeLoop e)

theorem abandonAll {blocks : List (OpenBlock Block)} (report : Bool)
    (returns : start.Returns (blocks.flatMap (·.block.handles) ++ handles) e) :
    start.Returns handles (e.abandonAll report blocks) := by
  induction blocks generalizing report e with
  | nil => exact returns
  | cons b rest ih =>
    rw [List.flatMap_cons, List.append_assoc] at returns
    rw [Engine.abandonAll]
    split
    · exact ih false (returns.edits (.issue e .fatalError (by decide) _)).abandon
    · exact ih report returns.abandon

theorem closeBarrier (returns : start.Returns (e.blocks.handles ++ handles) e) (tidy : e.Tidy)
    (report : Bool) : start.Returns handles (e.closeBarrier report) := by
  unfold Engine.closeBarrier
  rw [tidy.blocks.popBarrier]
  exact abandonAll report (other returns rfl rfl rfl id)

theorem holding : Holding fun handles e => start.Returns handles e where
  openScope o returns := returns.openScope o
  edits returns edits := returns.edits edits
  counts returns counts := returns.counts counts
  openBlock _ _ _ returns := returns.other rfl rfl rfl id

theorem opening (returns : start.Returns (e.blocks.handles ++ handles) e)
    (opening : Opening e e') : start.Returns (e'.blocks.handles ++ handles) e' :=
  holding.opening returns opening

theorem subdirectory {id : Nat} (returns : start.Returns handles e)
    (created : e.Subdirectory id e') : start.Returns handles e' := by
  obtain stops | descends := returns
  · exact .inl ((Steady.subdirectory created).fatal stops)
  have kept := Kept.subdirectory (.inr descends.housed) created
  refine kept.imp_right fun housed => ?_
  cases created with
  | @created scopes source binary f opened hidden =>
    obtain ⟨parent, found, -, tree⟩ := Scopes.treeCreateDirectory opened
    have same : ((scopes.setLocations id source binary).updateDirectory id f).tree = scopes.tree :=
      (Scopes.treeUpdateDirectory _ id hidden).trans (Scopes.treeSetLocations ..)
    rw [tree] at same
    obtain ⟨ids, known, climbs⟩ := descends.climbs
    have grows : e.scopes.tree.Grows
        ((scopes.setLocations id source binary).updateDirectory id f).tree := fun _ _ node => by
      rw [same]
      exact (Arena.nodePushOld (Arena.nodeBounds node).2).trans node
    exact { descends with
      housed
      climbs := ⟨ids, known, climbs.grows grows⟩
      grows := fun _ _ node => grows (descends.grows node) }

theorem enterDirectory {id : Nat} (returns : start.Returns handles e)
    (created : e.Subdirectory id e') (live : e'.fatal = false) :
    (Runner.enterDirectory id e').Returns [] (Runner.enterDirectory id e') := by
  obtain stops | descends := returns
  · exact .inl ((Steady.subdirectory created).fatal stops)
  · exact (Kept.enterDirectory (.inr descends.housed) created).imp_right fun housed =>
      .begun live (by simp [Runner.enterDirectory]) housed

theorem leaveDirectory {id : Nat} (returns : start.Returns handles e)
    (inside : (Runner.enterDirectory id e).Returns [] e') (live : e.fatal = false) :
    start.Returns handles (Runner.leaveDirectory e e') := by
  obtain stops | inner := inside
  · exact .inl stops
  obtain stops | descends := returns
  · rw [live] at stops
    cases stops
  have seat : ∀ i < e.runs.size, e'.seat? i = e.seat? i := fun i known => by
    have pushed : (Runner.enterDirectory id e).seat? i = e.seat? i := by
      simp only [seat?, Runner.enterDirectory, Array.getElem?_push, if_neg (Nat.ne_of_lt known)]
    refine (inner.elsewhere i ?_ (Nat.ne_of_lt known)).trans pushed
    simpa [Runner.enterDirectory] using Nat.lt_succ_of_lt known
  have grows : e.scopes.tree.Grows e'.scopes.tree := inner.grows
  have bound : e.runs.size ≤ e'.runs.size := by
    have further : (e.runs.push { snapshot := id }).size ≤ e'.runs.size := inner.processed
    rw [Array.size_push] at further
    omega
  have snapshot : (Runner.leaveDirectory e e').snapshot = e.snapshot :=
    congrArg (·.getD 0) (seat e.current descends.here)
  have housed : (Runner.leaveDirectory e e').Housed handles [] :=
    ⟨inner.housed.grounded.leaveDirectory e, inner.housed.rooted, fun handle member =>
      (descends.housed.below handle member).grows grows, descends.housed.distinct,
      List.forall_mem_nil _⟩
  have elsewhere : ∀ i < start.runs.size, i ≠ start.current → e'.seat? i = start.seat? i :=
    fun i known other => (seat i (Nat.lt_of_lt_of_le known descends.processed)).trans
      (descends.elsewhere i known other)
  obtain ⟨ids, known, climbs⟩ := descends.climbs
  exact .inr { descends with
    housed
    climbs := ⟨ids, known, snapshot ▸ climbs.grows grows⟩
    grows := fun _ _ node => grows (descends.grows node)
    elsewhere
    processed := Nat.le_trans descends.processed bound }

end Returns

/-- The state in which a run set out in a directory, and the scopes that it opened there since,
beside those of blocks. -/
structure Departure where
  start : Engine
  handles : List (Nat × Bool)

def Homebound (g : Departure) (e : Engine) : Prop :=
  g.start.Returns (e.blocks.handles ++ g.handles) e

namespace Homebound

variable {g : Departure}

theorem other (homebound : e.Homebound g) (scopes : e'.scopes = e.scopes) (runs : e'.runs = e.runs)
    (current : e'.current = e.current) (blocks : e'.blocks = e.blocks)
    (fatal : e.fatal = true → e'.fatal = true) : e'.Homebound g := by
  unfold Homebound
  rw [blocks]
  exact Returns.other homebound scopes runs current fatal

theorem edits (homebound : e.Homebound g) (edits : Edits e e') : e'.Homebound g := by
  unfold Homebound
  rw [(SameOpen.edits edits).blocks]
  exact Returns.edits homebound edits

theorem offered {blocks : BlockStack Block} {handles : List (Nat × Bool)} {start : Engine}
    (c : Command) (returns : start.Returns (blocks.handles ++ handles) e) :
    (({ e with blocks } : Engine).logged (.offered c)).Homebound ⟨start, handles⟩ :=
  returns.other rfl rfl rfl id

theorem openScope (homebound : e.Homebound g) (o : ScopeOpening) :
    (e.openScope o.create).2.Homebound
      { g with handles := held (e.openScope o.create).1 o.ownFrame ++ g.handles } := by
  unfold Homebound
  rw [(SameOpen.openScope e o.create).blocks]
  exact (Returns.openScope homebound o).reordered (List.perm_append_comm_assoc ..)

theorem closeScope {handle : ScopeHandle} {own : Bool}
    (homebound : e.Homebound { g with handles := held handle own ++ g.handles }) (report : Bool) :
    (e.closeScope handle report).Homebound g := by
  unfold Homebound
  rw [(SameOpen.closeScope e handle report).blocks]
  exact (Returns.reordered homebound (List.perm_append_comm_assoc ..)).closeScope report

theorem openBarrier (homebound : e.Homebound g) : e.openBarrier.Homebound g :=
  Returns.other homebound rfl rfl rfl id

theorem closeBarrier {handle : ScopeHandle} {own : Bool}
    (homebound : e.Homebound { g with handles := held handle own ++ g.handles }) (tidy : e.Tidy)
    (report reportScope : Bool) :
    ((e.closeBarrier report).closeScope handle reportScope).Homebound g := by
  have free := (tidy.closeBarrier report).2
  have taken : (e.closeBarrier report).Homebound
      { g with handles := held handle own ++ g.handles } := by
    unfold Homebound
    rw [BlockStack.handlesEmpty free]
    exact Returns.closeBarrier homebound tidy report
  exact taken.closeScope reportScope

theorem closeBlockScopes {policies bindings : Option ScopeHandle} {propagate : List String}
    (homebound : e.Homebound
      { g with handles := (Block.scope policies bindings propagate).handles ++ g.handles }) :
    (e.closeBlockScopes policies bindings propagate).Homebound g := by
  unfold Homebound
  rw [(SameOpen.closeBlockScopes e policies bindings propagate).blocks]
  exact (Returns.reordered homebound (List.perm_append_comm_assoc ..)).closeBlockScopes

end Homebound
end Engine
open Engine

def scopeReturn : Discipline Departure where
  holds := Homebound
  stopped _ := True
  strict := True
  nests := True
  stop _ := trivial
  edit homebound moves := homebound.edits moves.edits
  counts homebound counts := by
    cases counts
    exact homebound.other rfl rfl rfl rfl id
  failStops homebound := homebound.other rfl rfl rfl rfl fun _ => rfl
  stopNoted {g e} homebound := by
    unfold noteStop
    split <;> exact homebound.other rfl rfl rfl rfl id
  noted _ _ homebound := homebound.other rfl rfl rfl rfl id
  exitCode _ homebound := homebound.other rfl rfl rfl rfl id
  offered c homebound := homebound.other rfl rfl rfl rfl id
  recorded {g e top below} depth c homebound found := by
    refine Homebound.offered c ?_
    rw [BlockStack.handlesRecorded found]
    exact homebound
  closed {g e top below} c homebound found ordinary := by
    unfold Homebound at homebound
    rw [BlockStack.handlesTop found, Block.handlesPlain ordinary] at homebound
    exact Homebound.offered c homebound
  scopeClosed {g e top below policies bindings propagate} c homebound found empty scope := by
    obtain rfl := empty trivial
    unfold Homebound at homebound
    rw [BlockStack.handlesTop found, scope, BlockStack.handlesEmpty rfl, List.append_nil]
      at homebound
    have offered : (({ e with blocks := ⟨[], e.blocks.barriers⟩ } : Engine).logged
        (.offered c)).Homebound _ := Homebound.offered c homebound
    refine ⟨_, offered, fun ended => ?_⟩
    have logged : Homebound _ (Engine.logged _ .bodyEnded) := ended.other rfl rfl rfl rfl id
    exact logged.closeBlockScopes
  command {g e} c homebound := ⟨g, homebound.other rfl rfl rfl rfl id,
    fun ended => ended.other rfl rfl rfl rfl id⟩
  dispatched _ homebound _ := homebound.other rfl rfl rfl rfl id
  returned _ homebound := homebound.other rfl rfl rfl rfl id
  opening homebound _ opening := Returns.opening homebound opening
  definition homebound _ _ := homebound.other rfl rfl rfl rfl id
  called _ _ _ _ _ _ inside := inside.other rfl rfl rfl rfl id
  frame {g e} frame homebound := ⟨g, id, homebound.other rfl rfl rfl rfl id,
    fun ended => ended.other rfl rfl rfl rfl id⟩
  scope o homebound _ := ⟨_, homebound.openScope o, fun report ended _ => ended.closeScope report⟩
  scopeBarrier o homebound _ := ⟨_, fun _ => trivial, (homebound.openScope o).openBarrier,
    fun report reportScope ended tidy => ended.closeBarrier (tidy trivial) report reportScope⟩
  barrierScope o homebound _ := ⟨_, homebound.openBarrier.openScope o,
    fun report reportScope ended tidy => ended.closeBarrier (tidy trivial) report reportScope⟩
  queue {g e} change _ hosted homebound := by
    have quiet := Quiet.changeQueue e e.current change
    unfold Homebound
    rw [(SameOpen.hosted e e.current hosted).blocks]
    exact homebound.imp quiet.fatal fun descends => descends.retained
      (congrArg Scopes.tree (scopesChange ..)) (snapshotChange ..)
      (fun grounded => grounded.same (scopesChange ..) (seatsChange ..)) quiet.current
      (seatsChange ..) quiet.processed
  deferred {g e top below} o depth c homebound found := by
    have begun : ((e.openScope o.create).2.logged .deferredBegun).Homebound _ :=
      (homebound.openScope o).other rfl rfl rfl rfl id
    unfold Homebound at begun
    rw [show ((e.openScope o.create).2.logged .deferredBegun).blocks = e.blocks from
      (SameOpen.openScope e o.create).blocks, ← BlockStack.handlesRecorded found depth c] at begun
    have ended {g : Departure} {e : Engine} (homebound : e.Homebound g) :
        (e.logged .deferredEnded).Homebound g := homebound.other rfl rfl rfl rfl id
    exact ⟨trivial, (ended (Homebound.offered c begun)).closeScope true⟩
  reach _ _ := trivial
  created _ _ homebound created := by
    unfold Homebound
    rw [(SameOpen.subdirectory created).blocks]
    exact Returns.subdirectory homebound created
  refusal _ _ _ := .inl rfl
  directory {g e₀ e id} _ live homebound free created := by
    have free : e.Free := (free trivial).sameOpen (.subdirectory created)
    have there := Returns.subdirectory homebound created
    rw [← (SameOpen.subdirectory created).blocks, BlockStack.handlesEmpty free] at there
    have live : e.fatal = false := by
      cases created
      exact live
    refine ⟨⟨Runner.enterDirectory id e, []⟩, trivial, ?_, fun {e'} ended free => ?_⟩
    · unfold Homebound
      rw [BlockStack.handlesEmpty (s := (Runner.enterDirectory id e).blocks) free]
      exact Returns.enterDirectory homebound created live
    · unfold Homebound at ended ⊢
      rw [BlockStack.handlesEmpty (free trivial)] at ended
      rw [BlockStack.handlesEmpty (s := (Runner.leaveDirectory e e').blocks) (free trivial)]
      exact there.leaveDirectory ended live

namespace Engine

variable {e e' : Engine} {g : Departure}

theorem Homebound.stays (homebound : e.Homebound g) (stops : g.start.fatal = true) :
    e.fatal = true := by
  obtain stopped | descends := homebound
  · exact stopped
  · cases stops.symm.trans descends.running

theorem Homebound.stopped (stops : e.fatal = true) : e.Homebound g := .inl stops

theorem departure (ready : scopeReturn.Ready g e) : scopeReturn.Ready ⟨e, []⟩ e := by
  refine ⟨⟨?_, ready.tidy⟩, ready.free⟩
  by_cases stops : e.fatal = true
  · exact .stopped stops
  · have running : e.fatal = false := by simpa using stops
    obtain stops | descends := ready.holds
    · cases running.symm.trans stops
    · refine .inr ?_
      rw [BlockStack.handlesEmpty (ready.free trivial)]
      exact .begun running descends.here descends.housed

theorem Homebound.back {start : Engine} (homebound : e.Homebound ⟨start, []⟩) (free : e.Free)
    (live : e.fatal = false) : e.snapshot = start.snapshot := by
  unfold Homebound at homebound
  rw [BlockStack.handlesEmpty free] at homebound
  obtain stops | descends := homebound
  · cases live.symm.trans stops
  · exact descends.back

theorem homeboundStart (options : Options) (platform : Platform)
    (environment : List (String × String)) :
    scopeReturn.Ready ⟨start options platform environment, []⟩ (start options platform environment) := by
  refine ⟨⟨?_, fun _ => tidyStart ..⟩, fun _ => freeStart ..⟩
  obtain ⟨environment', cache, errorOccurred, same⟩ := startCases options platform environment
  rw [same]
  refine .inr (.begun rfl Nat.one_pos (?_ : Housed [] [] _))
  exact ⟨.first rfl rfl, Scopes.rootedInitial, nofun, .nil, nofun⟩

end Engine

end CMakeScript
