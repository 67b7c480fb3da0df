import CMakeScript.Proofs.Discipline
import CMakeScript.Proofs.ScopeChain
/-! Whether the scopes of a run are closed in the order in which they were opened. They are, unless
the commands of a scope leave another scope open when they end: then the outer one is closed too
early, which is reported as an internal error. -/
namespace CMakeScript

/-- The scopes that are open after a log, the innermost first; `none` once one was closed out of
turn. -/
def openScopes : List LogEntry → Option (List Nat)
  | [] => some []
  | ⟨.scopeOpened id, _⟩ :: before => (openScopes before).map (id :: ·)
  | ⟨.scopeClosed id, _⟩ :: before =>
    match openScopes before with
    | some (top :: below) => if top = id then some below else none
    | _ => none
  | _ :: before => openScopes before

/-- The commands of a scope ended while a scope was open that they had opened. -/
def Crossed (log : List LogEntry) : Prop :=
  ∃ entry ∈ log, entry.event = .bodyEnded ∧ ∃ b ∈ entry.blocks.blocks, b.block.isScope = true

instance (log : List LogEntry) : Decidable (Crossed log) := by
  unfold Crossed
  infer_instance

def Event.movesScope : Event → Bool
  | .scopeOpened _ | .scopeClosed _ => true
  | _ => false

def Block.scopes : Block → List Nat
  | scope policies bindings _ => bindings.join.toList ++ policies.join.toList
  | _ => []

def Block.Held (b : Block) : Prop := b.isScope = true → b.scopes ≠ []

def BlockStack.scopes (s : BlockStack Block) : List Nat := s.blocks.flatMap (·.block.scopes)

namespace Engine

def Fails (e : Engine) : Prop := ∃ w ∈ e.written, w.kind = some .internalError

structure Fine (ids : List Nat) (e : Engine) : Prop where
  log : openScopes e.log = some ids
  stands : e.scopes.tree.Stands e.snapshot ids
  quiet : ¬e.Fails
  straight : ¬Crossed e.log
  held : ∀ b ∈ e.blocks.blocks, b.block.Held

structure Broken (e : Engine) : Prop where
  fails : e.Fails
  crossed : Crossed e.log

variable {e e' : Engine} {ids : List Nat} {id : Nat}

theorem Fails.sameOpen (fails : e.Fails) (same : e.SameOpen e') : e'.Fails := by
  obtain ⟨w, member, kind⟩ := fails
  exact ⟨w, same.written w member, kind⟩

theorem Broken.sameOpen (broken : e.Broken) (same : e.SameOpen e') : e'.Broken := by
  obtain ⟨fails, entry, inside, crossed⟩ := broken
  obtain ⟨events, -, log⟩ := same.log
  refine ⟨fails.sameOpen same, entry, ?_, crossed⟩
  rw [log]
  exact List.mem_append_right _ inside

theorem Broken.move (broken : e.Broken) (blocks : BlockStack Block) (event : Event) :
    (({ e with blocks } : Engine).logged event).Broken := by
  obtain ⟨fails, entry, inside, crossed⟩ := broken
  exact ⟨fails, entry, List.mem_cons_of_mem _ inside, crossed⟩

theorem failsInternalError (e : Engine) (error : ScopeError) : (e.internalError error).Fails := by
  obtain ⟨nested, written, errorOccurred, issued, -, shown⟩ :=
    issueAtCases e .internalError error.message e.backtrace
  have visible : MessageKind.internalError.shown? e.warnings = some .internalError := by
    simp [MessageKind.shown?, MessageKind.convert, MessageKind.isVisible]
  rw [visible] at shown
  obtain ⟨hidden, -⟩ | ⟨kind, text, same, rfl⟩ := shown
  · cases hidden
  · cases same
    refine ⟨{ stream := .errors, text, kind := some .internalError }, ?_, rfl⟩
    rw [internalError, issue, issued]
    exact Array.mem_push_self

theorem openScopesLogged (e : Engine) {event : Event} (still : event.movesScope = false) :
    openScopes (e.logged event).log = openScopes e.log := by
  cases event with
  | scopeOpened | scopeClosed => cases still
  | _ => rfl

theorem crossedLogged {event : Event} (crossed : Crossed (e.logged event).log) :
    Crossed e.log ∨ (event = .bodyEnded ∧ ∃ b ∈ e.blocks.blocks, b.block.isScope = true) := by
  obtain ⟨entry, member, ended, open'⟩ := crossed
  obtain rfl | inside := List.mem_cons.mp member
  · exact .inr ⟨ended, open'⟩
  · exact .inl ⟨entry, inside, ended, open'⟩

theorem Fine.logged (fine : e.Fine ids) {event : Event} (still : event.movesScope = false)
    (going : event = .bodyEnded → ∀ b ∈ e.blocks.blocks, b.block.isScope = false) :
    (e.logged event).Fine ids where
  log := (openScopesLogged e still).trans fine.log
  stands := fine.stands
  quiet := fine.quiet
  straight crossed := by
    obtain old | ⟨ended, b, member, scope⟩ := crossedLogged crossed
    · exact fine.straight old
    · rw [going ended b member] at scope
      cases scope
  held := fine.held

theorem Fine.changeQueue (fine : e.Fine ids) (i : Nat) (change : QueueChange) :
    (e.changeQueue i change).Fine ids := by
  have snapshot := snapshotChange e i change
  unfold Engine.changeQueue at snapshot ⊢
  split
  case isTrue inside =>
    rw [if_pos inside] at snapshot
    have logged : (e.logged (.queue i change)).Fine ids := fine.logged rfl nofun
    exact { logged with stands := snapshot ▸ fine.stands }
  case isFalse => exact fine

theorem Fine.noteStop (fine : e.Fine ids) : e.noteStop.Fine ids := by
  unfold Engine.noteStop
  split
  · have logged : (e.logged .stopped).Fine ids := fine.logged rfl nofun
    exact { logged with }
  · exact fine

theorem failsPush {w : Written} (ordinary : w.kind ≠ some .internalError) {written : Array Written}
    (fails : ∃ w' ∈ written.push w, w'.kind = some .internalError) :
    ∃ w' ∈ written, w'.kind = some .internalError := by
  obtain ⟨w', member, kind⟩ := fails
  obtain inside | rfl := Array.mem_push.mp member
  · exact ⟨w', inside, kind⟩
  · exact absurd kind ordinary

theorem shownOrdinary {kind shown : MessageKind} {w : WarningOptions}
    (ordinary : kind ≠ .internalError) (visible : kind.shown? w = some shown) :
    shown ≠ .internalError := by
  have converted : kind.convert w ≠ .internalError := by
    cases kind with
    | internalError => exact absurd rfl ordinary
    | authorWarning | authorError | deprecationWarning | deprecationError =>
      dsimp only [MessageKind.convert]
      split <;> simp
    | _ => simp [MessageKind.convert]
  unfold MessageKind.shown? at visible
  dsimp only at visible
  split at visible
  · cases visible
  · cases visible
    exact converted

theorem failsIssueAt {kind : MessageKind} (ordinary : kind ≠ .internalError) {text : String}
    {trace : Backtrace} (fails : (e.issueAt kind text trace).Fails) : e.Fails := by
  obtain ⟨nested, written, errorOccurred, issued, -, shown⟩ := issueAtCases e kind text trace
  rw [issued] at fails
  obtain ⟨-, rfl⟩ | ⟨shown, text', visible, rfl⟩ := shown
  · exact fails
  · refine failsPush (w := { stream := .errors, text := text', kind := some shown }) ?_ fails
    have other := shownOrdinary ordinary visible
    simpa using other

theorem Fine.edit (fine : e.Fine ids) (edit : Edit e e') : e'.Fine ids := by
  have snapshot := (Edits.one edit).snapshot
  have blocks := (SameOpen.edit edit).blocks
  have known : e.scopes.snapshots.get? e.snapshot ≠ none := by
    obtain ⟨p, found⟩ := fine.stands.found
    intro absent
    rw [Scopes.getTree, absent] at found
    cases found
  have same (log : e'.log = e.log) (tree : e'.scopes.tree = e.scopes.tree)
      (quiet : e'.Fails → e.Fails) : e'.Fine ids := by
    obtain ⟨opened, stands, silent, straight, held⟩ := fine
    exact ⟨by rwa [log], by rwa [tree, snapshot], fun fails => silent (quiet fails), by rwa [log],
      by rwa [blocks]⟩
  cases edit with
  | @scope id u _ => exact same rfl (u.treeApply e.scopes id) fun fails => fails
  | directory id hidden => exact same rfl (Scopes.treeUpdateDirectory _ _ hidden) fun fails => fails
  | declared =>
    exact same rfl (Scopes.treeUpdateDirectory _ _ fun _ => ⟨rfl, rfl⟩) fun fails => fails
  | listFile id path => exact same rfl (Scopes.treeSetListFile ..) fun fails => fails
  | output text => exact same rfl rfl (failsPush (by simp))
  | errors text => exact same rfl rfl (failsPush (by simp))
  | issue ordinary text trace =>
    obtain ⟨nested, written, errorOccurred, issued, -⟩ := issueAtCases e _ text trace
    refine same ?_ ?_ (failsIssueAt ordinary)
    · rw [issued]
    · rw [issued]
  | @display kind ordinary text =>
    have written : ∃ w errorOccurred, w.kind = some kind ∧
        e.display kind text = { e with written := e.written.push w, errorOccurred } := by
      unfold Engine.display
      split
      · exact ⟨_, true, rfl, rfl⟩
      · exact ⟨_, e.errorOccurred, rfl, rfl⟩
    obtain ⟨w, errorOccurred, named, written⟩ := written
    rw [written] at same ⊢
    exact same rfl rfl (failsPush (by simpa [named] using ordinary))
  | lost absent error => exact absurd absent known
  | tested => exact fine.logged rfl nofun
  | queue => exact fine.changeQueue ..
  | _ => exact same rfl rfl fun fails => fails

theorem Fine.edits (fine : e.Fine ids) (edits : Edits e e') : e'.Fine ids := by
  induction edits with
  | refl => exact fine
  | tail _ last ih => exact ih.edit last

theorem Fine.placed (fine : e.Fine ids) : e.current < e.runs.size := by
  obtain ⟨p, found⟩ := fine.stands.found
  exact placedSnapshot (Arena.getBounds found).1

theorem Fine.openScope (fine : e.Fine ids) (o : ScopeOpening) :
    ∃ id, (e.openScope o.create).1 = some id ∧ (e.openScope o.create).2.Fine (id :: ids) := by
  obtain ⟨scopes, id, created, stands⟩ := Scopes.standsCreate fine.stands o
  unfold Engine.openScope
  rw [created]
  refine ⟨id, rfl, ?_, ?_, fine.quiet, ?_, fine.held⟩
  · change (openScopes e.log).map (id :: ·) = some (id :: ids)
    rw [fine.log]
    rfl
  · rw [snapshotMoved fine.placed]
    exact stands
  · intro crossed
    obtain old | ⟨ended, -⟩ := crossedLogged crossed
    · exact fine.straight old
    · cases ended

theorem Fine.counts (fine : e.Fine ids) (counts : e.Counts e') : e'.Fine ids := by
  cases counts
  exact ⟨fine.log, fine.stands, fine.quiet, fine.straight, fine.held⟩

theorem Fine.openPolicyScope (fine : e.Fine ids) :
    ∃ id, e.openPolicyScope.1 = some id ∧ e.openPolicyScope.2.Fine (id :: ids) := by
  obtain ⟨id, handle, fine⟩ := fine.openScope .policyScope
  exact ⟨id, handle, fine.edits (.pushPolicy ..)⟩

theorem Fine.openVariableScope (fine : e.Fine ids) :
    ∃ id, e.openVariableScope.1 = some id ∧ e.openVariableScope.2.Fine (id :: ids) := by
  obtain ⟨id, handle, fine⟩ := fine.openScope .variableScope
  exact ⟨id, handle, fine.counts (.openLoopBarrier _)⟩

theorem Fine.openScopesBlock {kinds : Command.ScopeKinds} (propagated : List String)
    (fine : e.Fine ids) (wanted : (kinds.forVariables || kinds.forPolicies) = true) :
    ∃ policies bindings, ∃ e₁ : Engine, e₁.blocks = e.blocks ∧
      e₁.Fine ((Block.scope policies bindings propagated).scopes ++ ids) ∧
      (Block.scope policies bindings propagated).Held ∧
      (Command.openScopes kinds propagated e).2 =
        e₁.openBlock (.scope policies bindings propagated) "block" "endblock" := by
  obtain ⟨policies, bindings, e₁, scopes, opened⟩ := Command.openScopesCases kinds propagated e
  suffices e₁.Fine ((Block.scope policies bindings propagated).scopes ++ ids) ∧
      (Block.scope policies bindings propagated).Held from
    ⟨policies, bindings, e₁, scopes.sameOpen.blocks, this.1, this.2, opened⟩
  cases scopes with
  | neither => cases wanted
  | policies =>
    obtain ⟨id, handle, fine⟩ := fine.openPolicyScope
    exact ⟨by simpa [Block.scopes, handle] using fine, by simp [Block.Held, Block.scopes, handle]⟩
  | bindings =>
    obtain ⟨id, handle, fine⟩ := fine.openVariableScope
    exact ⟨by simpa [Block.scopes, handle] using fine, by simp [Block.Held, Block.scopes, handle]⟩
  | both =>
    obtain ⟨id, handle, fine⟩ := fine.openPolicyScope
    obtain ⟨id', handle', fine⟩ := fine.openVariableScope
    constructor
    · simpa [Block.scopes, handle, handle'] using fine
    · simp [Block.Held, Block.scopes, handle']

theorem Fine.closeScope (fine : e.Fine (id :: ids)) (report : Bool) :
    (e.closeScope (some id) report).Fine ids := by
  have here := (Scopes.standsPop fine.stands).1
  have dropped := fine.edits (.dropPolicies (e.scopes.policies.size + 1) report here)
  unfold Engine.closeScope
  dsimp only
  rw [if_neg (Decidable.not_not.mpr here)]
  generalize dropPolicies id (e.scopes.policies.size + 1) report e = e₁ at dropped ⊢
  obtain ⟨-, scopes, up, popped, stands⟩ := Scopes.standsPop dropped.stands
  rw [popped]
  refine ⟨?_, ?_, dropped.quiet, ?_, dropped.held⟩
  · change (match openScopes e₁.log with
      | some (top :: below) => if top = id then some below else none
      | _ => none) = some ids
    rw [dropped.log]
    simp
  · rw [snapshotMoved dropped.placed]
    exact stands
  · intro crossed
    obtain old | ⟨ended, -⟩ := crossedLogged crossed
    · exact dropped.straight old
    · cases ended

theorem failsOutOfTurn (wrong : e.snapshot ≠ id) (report : Bool) :
    (e.closeScope (some id) report).Fails := by
  unfold Engine.closeScope
  dsimp only
  rw [if_pos wrong]
  exact failsInternalError ..

theorem failsCloseBlockScopes {policies bindings : Option ScopeHandle} (propagate : List String)
    (held : (Block.scope policies bindings propagate).scopes ≠ [])
    (wrong : ∀ id ∈ (Block.scope policies bindings propagate).scopes, e.snapshot ≠ id) :
    (e.closeBlockScopes policies bindings propagate).Fails := by
  have policiesFail {e₁ : Engine} (here : e₁.snapshot = e.snapshot) (handle : Option Nat)
      (held : handle.toList ≠ []) (wrong : ∀ id ∈ handle.toList, e.snapshot ≠ id) :
      (e₁.closePolicyScope handle).Fails := by
    cases handle with
    | none => exact absurd rfl held
    | some id =>
      refine failsOutOfTurn ?_ true
      rw [(Edits.popPolicy e₁).snapshot, here]
      exact wrong id (by simp)
  have left : (e.raiseAll propagate).closeLoopBarrier.snapshot = e.snapshot :=
    (Counts.snapshot (.closeLoopBarrier _)).trans (Edits.raiseAll e propagate).snapshot
  rcases bindings with _ | _ | id
  · cases policies with
    | none => exact absurd rfl held
    | some handle => exact policiesFail rfl handle held wrong
  · cases policies with
    | none => exact absurd rfl held
    | some handle => exact policiesFail left handle held wrong
  · have outOfTurn : ((e.raiseAll propagate).closeVariableScope (some id)).Fails := by
      refine failsOutOfTurn ?_ true
      rw [left]
      exact wrong id (by simp [Block.scopes])
    cases policies with
    | none => exact outOfTurn
    | some handle => exact outOfTurn.sameOpen (.closePolicyScope _ handle)

theorem Fine.crossed {outer : List Nat} {policies bindings : Option ScopeHandle}
    {propagate : List String}
    (fine : e.Fine
      (e.blocks.scopes ++ ((Block.scope policies bindings propagate).scopes ++ outer)))
    (held : (Block.scope policies bindings propagate).scopes ≠ [])
    {b : OpenBlock Block} (member : b ∈ e.blocks.blocks) (scope : b.block.isScope = true) :
    ((e.logged .bodyEnded).closeBlockScopes policies bindings propagate).Broken := by
  have same := SameOpen.closeBlockScopes (e.logged .bodyEnded) policies bindings propagate
  have inner : e.blocks.scopes ≠ [] := by
    intro none
    have empty : b.block.scopes = [] := List.flatMap_eq_nil_iff.mp none b member
    exact fine.held b member scope empty
  obtain ⟨top, rest, first⟩ := List.exists_cons_of_ne_nil inner
  have stands := fine.stands
  rw [first, List.cons_append] at stands
  obtain ⟨here, -⟩ := Scopes.standsPop stands
  have wrong : ∀ id ∈ (Block.scope policies bindings propagate).scopes, e.snapshot ≠ id := by
    intro id inside
    have older := stands.descends id
      (List.mem_append_right _ (List.mem_append_left _ inside))
    omega
  refine ⟨failsCloseBlockScopes propagate held wrong, ?_⟩
  obtain ⟨events, -, log⟩ := same.log
  refine ⟨⟨.bodyEnded, e.blocks⟩, ?_, rfl, b, member, scope⟩
  rw [log]
  exact List.mem_append_right _ (List.mem_cons_self ..)

end Engine
end CMakeScript
