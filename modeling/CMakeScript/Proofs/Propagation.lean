import CMakeScript.Proofs.GroundedRuns
import CMakeScript.Proofs.Steady
/-! Values on their way out of scopes. A value that is raised before a scope is closed shows
afterwards, and closing a scope without variables of its own changes no value. A scope that is not
current when it is to be closed stops the run. -/
namespace CMakeScript

theorem Edit.tree {e e' : Engine} (edit : Edit e e') : e'.scopes.tree = e.scopes.tree := by
  have issued (kind : MessageKind) (text : String) (trace : Backtrace) :
      (e.issueAt kind text trace).scopes = e.scopes := by
    obtain ⟨nested, written, errorOccurred, issued, -⟩ := Engine.issueAtCases e kind text trace
    rw [issued]
  cases edit with
  | @scope id u _ => exact u.treeApply e.scopes id
  | directory id hidden => exact Scopes.treeUpdateDirectory _ _ hidden
  | declared => exact Scopes.treeUpdateDirectory _ _ fun _ => ⟨rfl, rfl⟩
  | listFile id path => exact Scopes.treeSetListFile ..
  | issue => rw [issued]
  | @display kind =>
    unfold Engine.display
    split <;> rfl
  | lost _ error => exact congrArg Scopes.tree (issued ..)
  | queue => rw [Engine.scopesChange]
  | _ => rfl

theorem Edits.tree {e e' : Engine} (edits : Edits e e') : e'.scopes.tree = e.scopes.tree := by
  induction edits with
  | refl => rfl
  | tail _ last ih => exact last.tree.trans ih

theorem Scopes.outerOfFrames {s s' : Scopes} (tree : s'.tree = s.tree) (frames : s'.frames = s.frames)
    (id : Nat) (name : String) : s'.outer? id name = s.outer? id name := by
  have place := placeOfTree tree id
  unfold outer?
  rw [frames]
  cases live : s.snapshots.get? id with
  | none =>
    rw [live, Option.map_none, Option.map_eq_none_iff] at place
    rw [place]
  | some here =>
    rw [live, Option.map_some] at place
    obtain ⟨there, live', same⟩ := Option.map_eq_some_iff.mp place
    have parentFrame : there.place.parentFrame = here.place.parentFrame := by rw [same]
    have rootFrame : there.place.rootFrame = here.place.rootFrame := by rw [same]
    rw [live']
    change s.frames.lookup there.parentFrame there.rootFrame name = _
    rw [show there.parentFrame = here.parentFrame from parentFrame,
      show there.rootFrame = here.rootFrame from rootFrame]
    rfl

def Block.handles : Block → List (Nat × Bool)
  | scope policies bindings _ =>
    bindings.join.toList.map (·, true) ++ policies.join.toList.map (·, false)
  | _ => []

theorem Block.handlesPlain {b : Block} (ordinary : b.isScope = false) : b.handles = [] := by
  cases b with
  | scope => cases ordinary
  | _ => rfl

namespace BlockStack

def handles (s : BlockStack Block) : List (Nat × Bool) := s.blocks.flatMap (·.block.handles)

variable {s : BlockStack Block} {top : OpenBlock Block} {below : List (OpenBlock Block)}

theorem handlesEmpty (empty : s.blocks = []) : s.handles = [] := by
  rw [handles, empty, List.flatMap_nil]

theorem handlesTop (found : s.blocks = top :: below) :
    s.handles = top.block.handles ++ ({ s with blocks := below } : BlockStack Block).handles := by
  rw [handles, found, List.flatMap_cons, handles]

theorem handlesRecorded (found : s.blocks = top :: below) (depth : Nat) (c : Command) :
    ({ s with blocks := { top with depth, recorded := c :: top.recorded } :: below } :
      BlockStack Block).handles = s.handles := by
  rw [handlesTop found]
  rfl

end BlockStack
namespace Engine

structure SameViews (e e' : Engine) : Prop where
  snapshot : e'.snapshot = e.snapshot
  tree : e'.scopes.tree = e.scopes.tree
  frames : e'.scopes.frames = e.scopes.frames
  grounded : e.Grounded → e'.Grounded
  fatal : e.fatal = true → e'.fatal = true

namespace SameViews

variable {e e' e'' : Engine}

theorem other (snapshot : e'.snapshot = e.snapshot) (seats : e'.seat? = e.seat?)
    (scopes : e'.scopes = e.scopes) (fatal : e.fatal = true → e'.fatal = true) : e.SameViews e' :=
  ⟨snapshot, congrArg Scopes.tree scopes, congrArg Scopes.frames scopes,
    fun grounded => grounded.same scopes seats, fatal⟩

theorem refl (e : Engine) : e.SameViews e := other rfl rfl rfl id

theorem trans (first : e.SameViews e') (second : e'.SameViews e'') : e.SameViews e'' where
  snapshot := second.snapshot.trans first.snapshot
  tree := second.tree.trans first.tree
  frames := second.frames.trans first.frames
  grounded grounded := second.grounded (first.grounded grounded)
  fatal stops := second.fatal (first.fatal stops)

theorem issueAt (e : Engine) (kind : MessageKind) (text : String) (trace : Backtrace) :
    e.SameViews (e.issueAt kind text trace) := by
  obtain ⟨nested, written, errorOccurred, issued, -⟩ := issueAtCases e kind text trace
  rw [issued]
  exact other rfl rfl rfl id

theorem internalError (e : Engine) (error : ScopeError) : e.SameViews (e.internalError error) :=
  (issueAt ..).trans (other rfl rfl rfl fun _ => rfl)

theorem changeQueue (e : Engine) (i : Nat) (change : QueueChange) :
    e.SameViews (e.changeQueue i change) := by
  refine other (snapshotChange e i change) (seatsChange e i change) (scopesChange e i change)
    fun stops => ?_
  unfold Engine.changeQueue
  split <;> exact stops

theorem noteStop (e : Engine) : e.SameViews e.noteStop := by
  unfold Engine.noteStop
  split <;> exact other rfl rfl rfl id

theorem counts (counts : e.Counts e') : e.SameViews e' := by
  cases counts
  exact other rfl rfl rfl id

theorem pushPolicy (e : Engine) (weak : Bool) (settings : PolicySettings) :
    e.SameViews (e.pushPolicy weak settings) := by
  have grounded (grounded : e.Grounded) := grounded.edits (.pushPolicy e weak settings)
  unfold Engine.pushPolicy at grounded ⊢
  split
  case h_1 pushed =>
    rw [pushed] at grounded
    exact ⟨rfl, Scopes.treePushPolicy pushed, Scopes.framesPushPolicy pushed, grounded, id⟩
  case h_2 error _ => exact internalError e error

theorem popped {scopes : Scopes} (popped : e.scopes.popPolicy e.snapshot = .ok (some scopes)) :
    e.SameViews { e with scopes } where
  snapshot := rfl
  tree := Scopes.treePopPolicy popped
  frames := Scopes.framesPopPolicy popped
  grounded grounded := by
    have edit := Edit.scope (e := e) (u := .popPolicy) fun _ => rfl
    rw [ScopeEdit.apply, popped] at edit
    exact grounded.edit edit
  fatal := id

theorem popPolicy (e : Engine) : e.SameViews e.popPolicy.2 := by
  unfold Engine.popPolicy
  split
  case h_1 found => exact popped found
  case h_2 => exact issueAt e .fatalError _ e.backtrace
  case h_3 error _ => exact internalError e error

theorem dropPolicies (fuel : Nat) (report : Bool) (e : Engine) :
    e.SameViews (Engine.dropPolicies e.snapshot fuel report e) :=
  Turns.dropPoliciesCarry (P := fun e₁ e₂ => e₁.snapshot = e.snapshot → e₁.SameViews e₂)
    (fun e₁ _ => refl e₁)
    (fun first second here => (first here).trans (second ((first here).snapshot.trans here)))
    (fun e₁ text _ => issueAt e₁ .fatalError text e₁.backtrace)
    (fun found here => popped (here ▸ found)) (fun e₁ error _ => internalError e₁ error)
    fuel report e rfl

theorem normal (same : e.SameViews e') (name : String) : e'.normal? name = e.normal? name := by
  unfold normal?
  rw [same.snapshot]
  exact (Scopes.sparesOfFrames same.tree same.frames e.snapshot).definition name

theorem outer (same : e.SameViews e') (id : Nat) (name : String) :
    e'.scopes.outer? id name = e.scopes.outer? id name :=
  Scopes.outerOfFrames same.tree same.frames id name

end SameViews

theorem normalAssignOthers {e : Engine} (saved : List (String × Option String)) {other : String}
    (apart : other ∉ saved.map Prod.fst) :
    (saved.foldl (fun e (name, value) => e.assign name value) e).normal? other =
      e.normal? other := by
  induction saved generalizing e with
  | nil => rfl
  | cons entry rest ih =>
    simp only [List.map_cons, List.mem_cons, not_or] at apart
    rw [List.foldl_cons, ih apart.2]
    obtain ⟨name, _ | value⟩ := entry
    · exact Scopes.definitionUndefine _ _ _ (Ne.symm apart.1)
    · exact Scopes.definitionDefine _ _ _ (Ne.symm apart.1) value

structure Housed (handles : List (Nat × Bool)) (values : List (String × Option String))
    (e : Engine) : Prop where
  grounded : e.Grounded
  rooted : e.scopes.tree.Rooted
  below : ∀ handle ∈ handles, e.scopes.tree.Below handle.2 handle.1
  distinct : (handles.map Prod.fst).Nodup
  shows : ∀ entry ∈ values, e.normal? entry.1 = entry.2

def Kept (handles : List (Nat × Bool)) (values : List (String × Option String)) (e : Engine) :
    Prop := e.fatal = true ∨ e.Housed handles values

variable {e e' : Engine} {handles : List (Nat × Bool)} {values : List (String × Option String)}

namespace Housed

theorem sound (housed : e.Housed handles values) : e.scopes.tree.Sound :=
  housed.grounded.scopes.sound

theorem reordered (housed : e.Housed handles values) {handles' : List (Nat × Bool)}
    (same : handles.Perm handles') : e.Housed handles' values :=
  { housed with
    below := fun handle member => housed.below handle (same.mem_iff.mpr member)
    distinct := (same.map Prod.fst).nodup_iff.mp housed.distinct }

theorem retained (housed : e.Housed handles values) (tree : e'.scopes.tree = e.scopes.tree)
    (grounded : e'.Grounded) {values' : List (String × Option String)}
    (shows : ∀ entry ∈ values', e'.normal? entry.1 = entry.2) : e'.Housed handles values' where
  grounded := grounded
  rooted := tree ▸ housed.rooted
  below := tree ▸ housed.below
  distinct := housed.distinct
  shows := shows

theorem same (housed : e.Housed handles values) (same : e.SameViews e') :
    e'.Housed handles values :=
  housed.retained same.tree (same.grounded housed.grounded) fun entry member =>
    (same.normal entry.1).trans (housed.shows entry member)

theorem assignAll (housed : e.Housed handles values) (saved : List (String × Option String))
    {values' : List (String × Option String)}
    (kept : ∀ entry ∈ values', entry ∈ values ∧ entry.1 ∉ saved.map Prod.fst) :
    (saved.foldl (fun e (name, value) => e.assign name value) e).Housed handles values' := by
  have edits := Edits.assignAll saved e
  refine housed.retained edits.tree (housed.grounded.edits edits) fun entry member => ?_
  obtain ⟨known, apart⟩ := kept entry member
  rw [normalAssignOthers saved apart]
  exact housed.shows entry known

theorem assigned (housed : e.Housed handles values) (placed : e.current < e.runs.size)
    (name : String) (value : Option String) : (e.assign name value).normal? name = value := by
  obtain ⟨here, d, live, -⟩ := Scopes.isCurrentIff.mp
    (Scopes.isCurrentTree.mpr (housed.grounded.here placed))
  have shows := Scopes.definitionAssigned housed.sound housed.rooted live name value
  cases value <;> simp only [Engine.assign, define, undefine, Scopes.define, Scopes.undefine, live]
  · exact shows
  · exact shows

theorem restored (housed : e.Housed handles values) (placed : e.current < e.runs.size)
    (saved : List (String × Option String)) (distinct : (saved.map Prod.fst).Nodup) :
    (saved.foldl (fun e (name, value) => e.assign name value) e).Housed handles saved := by
  have edits := Edits.assignAll saved e
  refine housed.retained edits.tree (housed.grounded.edits edits) ?_
  clear edits
  induction saved generalizing e values with
  | nil => exact nofun
  | cons entry rest ih =>
    obtain ⟨apart, distinct⟩ := List.nodup_cons.mp distinct
    have edit := Edits.assign e entry.1 entry.2
    have first : (e.assign entry.1 entry.2).Housed handles [] :=
      housed.retained edit.tree (housed.grounded.edits edit) nofun
    intro other member
    rw [List.foldl_cons]
    obtain rfl | later := List.mem_cons.mp member
    · exact (normalAssignOthers rest apart).trans (housed.assigned placed _ _)
    · refine ih first ?_ distinct other later
      rw [(Quiet.edits edit).current, (Quiet.edits edit).processed]
      exact placed

theorem raise (housed : e.Housed handles values) (name : String) (value : Option String) :
    (e.raise name value).Housed handles values ∧
      ∀ other, (e.raise name value).normal? other = e.normal? other := by
  have edits := Edits.raise e name value
  have shown (same : ∀ other, (e.raise name value).normal? other = e.normal? other) :
      (e.raise name value).Housed handles values :=
    housed.retained edits.tree (housed.grounded.edits edits) fun entry member =>
      (same entry.1).trans (housed.shows entry member)
  suffices same : ∀ other, (e.raise name value).normal? other = e.normal? other from
    ⟨shown same, same⟩
  intro other
  unfold Engine.raise
  split
  · rfl
  · split
    case h_1 scopes raised =>
      exact Scopes.definitionRaise housed.sound housed.rooted raised other
    case h_2 => exact (SameViews.issueAt ..).normal other

theorem raiseAll (housed : e.Housed handles values) (names : List String) :
    (e.raiseAll names).Housed handles values ∧
      ∀ other, (e.raiseAll names).normal? other = e.normal? other := by
  unfold Engine.raiseAll
  induction names generalizing e with
  | nil => exact ⟨housed, fun _ => rfl⟩
  | cons name rest ih =>
    obtain ⟨raised, same⟩ := housed.raise name (e.normal? name)
    obtain ⟨all, kept⟩ := ih raised
    exact ⟨all, fun other => (kept other).trans (same other)⟩

end Housed

def Raised (values : List (String × Option String)) (e : Engine) : Prop :=
  e.scopes.tree.Below true e.snapshot →
    ∀ entry ∈ values, e.scopes.outer? e.snapshot entry.1 = entry.2

namespace Raised

theorem none (e : Engine) : e.Raised [] := fun _ => nofun

theorem same (raised : e.Raised values) (same : e.SameViews e') : e'.Raised values := by
  intro inner entry member
  rw [same.snapshot, same.tree] at inner
  rw [same.snapshot, same.outer]
  exact raised inner entry member

theorem outerRaise (housed : e.Housed handles values)
    (inner : e.scopes.tree.Below true e.snapshot) (name : String) (value : Option String)
    (other : String) : (e.raise name value).scopes.outer? e.snapshot other =
      if name = other ∧ name ≠ "" then value else e.scopes.outer? e.snapshot other := by
  obtain ⟨scopes, raised, outer⟩ :=
    Scopes.raiseInner housed.sound housed.rooted inner name value
  unfold Engine.raise
  rw [raised]
  split
  case isTrue empty =>
    have empty : name = "" := by simpa using empty
    simp [empty]
  case isFalse some =>
    have some : name ≠ "" := by simpa using some
    simp [outer, some]

theorem outerRaiseAll (housed : e.Housed handles values)
    (inner : e.scopes.tree.Below true e.snapshot) (names : List String) (other : String) :
    (e.raiseAll names).scopes.outer? e.snapshot other =
      if other ∈ names ∧ other ≠ "" then e.normal? other
      else e.scopes.outer? e.snapshot other := by
  unfold Engine.raiseAll
  induction names generalizing e with
  | nil => simp
  | cons name rest ih =>
    have edits := Edits.raise e name (e.normal? name)
    obtain ⟨housed', same⟩ := housed.raise name (e.normal? name)
    have inner' := inner
    rw [← edits.tree, ← edits.snapshot] at inner'
    have first := outerRaise housed inner name (e.normal? name) other
    have further := ih housed' inner'
    rw [edits.snapshot, same, first] at further
    rw [List.foldl_cons, further]
    by_cases here : name = other
    · subst here
      by_cases empty : name = "" <;> simp [empty]
    · have elsewhere : other ≠ name := fun same => here same.symm
      simp [here, elsewhere]

theorem raiseNamed (housed : e.Housed handles values) {names : List String}
    (named : ∀ entry ∈ values, entry.1 ∈ names ∧ entry.1 ≠ "") :
    (e.raiseAll names).Raised values := by
  have edits := Edits.raiseAll e names
  intro inner entry member
  rw [edits.snapshot, edits.tree] at inner
  rw [edits.snapshot, outerRaiseAll housed inner, if_pos (named entry member)]
  exact housed.shows entry member

theorem raiseAll (raised : e.Raised values) (housed : e.Housed handles values)
    (names : List String) : (e.raiseAll names).Raised values := by
  have edits := Edits.raiseAll e names
  intro inner entry member
  rw [edits.snapshot, edits.tree] at inner
  rw [edits.snapshot, outerRaiseAll housed inner]
  split
  · exact housed.shows entry member
  · exact raised inner entry member

end Raised

theorem closeScopeCases (e : Engine) (id : Nat) (report : Bool) :
    (e.closeScope (some id) report).fatal = true ∨
      e.snapshot = id ∧ ∃ e₁ scopes up, e.SameViews e₁ ∧ e₁.scopes.pop id = .ok (scopes, up) ∧
        e.closeScope (some id) report =
          (({ e₁ with scopes } : Engine).setSnapshot up).logged (.scopeClosed id) := by
  unfold closeScope
  dsimp only
  split
  case isTrue => exact .inl rfl
  case isFalse current =>
    obtain rfl := Decidable.not_not.mp current
    have dropped := SameViews.dropPolicies (e.scopes.policies.size + 1) report e
    generalize Engine.dropPolicies e.snapshot (e.scopes.policies.size + 1) report e = e₁
      at dropped ⊢
    split
    case h_1 scopes up popped => exact .inr ⟨rfl, e₁, scopes, up, dropped, popped, rfl⟩
    case h_2 => exact .inl rfl

def held (handle : ScopeHandle) (own : Bool) : List (Nat × Bool) := handle.toList.map (·, own)

structure Holding (P : List (Nat × Bool) → Engine → Prop) : Prop where
  openScope {handles : List (Nat × Bool)} {e : Engine} (o : ScopeOpening) : P handles e →
    P (held (e.openScope o.create).1 o.ownFrame ++ handles) (e.openScope o.create).2
  edits {handles : List (Nat × Bool)} {e e' : Engine} : P handles e → Edits e e' → P handles e'
  counts {handles : List (Nat × Bool)} {e e' : Engine} : P handles e → e.Counts e' → P handles e'
  openBlock {handles : List (Nat × Bool)} {e : Engine} (block : Block) (opens closes : String) :
    P handles e → P handles (e.openBlock block opens closes)

namespace Holding

variable {P : List (Nat × Bool) → Engine → Prop}

theorem openPolicyScope (holding : Holding P) (holds : P handles e) :
    P (held e.openPolicyScope.1 false ++ handles) e.openPolicyScope.2 :=
  holding.edits (holding.openScope .policyScope holds) (.pushPolicy ..)

theorem openVariableScope (holding : Holding P) (holds : P handles e) :
    P (held e.openVariableScope.1 true ++ handles) e.openVariableScope.2 :=
  holding.counts (holding.openScope .variableScope holds) (.openLoopBarrier _)

theorem openScopesBlock (holding : Holding P) (kinds : Command.ScopeKinds)
    (propagated : List String) (holds : P handles e) :
    ∃ policies bindings, ∃ e₁ : Engine, e₁.blocks = e.blocks ∧
      P ((Block.scope policies bindings propagated).handles ++ handles) e₁ ∧
      (Command.openScopes kinds propagated e).2 =
        e₁.openBlock (.scope policies bindings propagated) "block" "endblock" := by
  obtain ⟨policies, bindings, e₁, scopes, opened⟩ := Command.openScopesCases kinds propagated e
  refine ⟨policies, bindings, e₁, scopes.sameOpen.blocks, ?_, opened⟩
  cases scopes with
  | neither => exact holds
  | policies => exact holding.openPolicyScope holds
  | bindings => simpa [Block.handles, held] using holding.openVariableScope holds
  | both =>
    have both := holding.openVariableScope (holding.openPolicyScope holds)
    rwa [← List.append_assoc] at both

theorem openOrdinary (holding : Holding P) {block : Block} (holds : P (e.blocks.handles ++ handles) e)
    (ordinary : block.isScope = false) (opens closes : String) :
    P ((e.openBlock block opens closes).blocks.handles ++ handles)
      (e.openBlock block opens closes) := by
  have same : (e.openBlock block opens closes).blocks.handles = e.blocks.handles := by
    rw [BlockStack.handlesTop rfl, Block.handlesPlain ordinary]
    rfl
  rw [same]
  exact holding.openBlock block opens closes holds

theorem opening (holding : Holding P) (holds : P (e.blocks.handles ++ handles) e)
    (opening : Opening e e') : P (e'.blocks.handles ++ handles) e' := by
  cases opening with
  | plain ordinary => exact holding.openOrdinary holds ordinary ..
  | loop repeats =>
    have counted := holding.counts holds (.openLoop e)
    rw [← (SameOpen.counts (.openLoop e)).blocks] at counted
    exact holding.openOrdinary counted (Block.loopOrdinary repeats) ..
  | @scopes kinds propagated some =>
    obtain ⟨policies, bindings, e₁, blocks, inside, opened⟩ :=
      holding.openScopesBlock kinds propagated holds
    rw [opened, BlockStack.handlesTop rfl, List.append_assoc]
    rw [← blocks] at inside
    exact holding.openBlock _ _ _ inside

end Holding

namespace Housed

theorem closeCurrent {id : Nat} {own : Bool} (housed : e.Housed ((id, own) :: handles) values)
    (raised : own = true → e.Raised values) (here : e.snapshot = id) {scopes : Scopes} {up : Nat}
    (popped : e.scopes.pop id = .ok (scopes, up)) :
    ((({ e with scopes } : Engine).setSnapshot up).logged (.scopeClosed id)).Housed handles
      values := by
  have sound := housed.sound
  obtain ⟨grounded, rooted, below, distinct, shows⟩ := housed
  obtain ⟨others, distinct⟩ := List.nodup_cons.mp distinct
  have inner : e.scopes.tree.Below own id := below (id, own) (List.mem_cons_self ..)
  obtain ⟨p, q, -, found, above, -, tree⟩ := Scopes.treePop popped
  have bound := inner.bound
  constructor
  case grounded =>
    subst here
    exact (grounded.closeScope rooted inner popped).same rfl rfl
  case rooted => exact tree ▸ rooted.leave sound found above
  case below =>
    intro handle member
    have different : handle.1 ≠ id := fun same => others (List.mem_map.mpr ⟨handle, member, same⟩)
    exact tree ▸ (below handle (List.mem_cons_of_mem _ member)).leave different
  case distinct => exact distinct
  case shows =>
    intro entry member
    have placed := placedSnapshot (e := e) (by omega)
    unfold normal?
    rw [snapshotMoved placed]
    refine (Scopes.definitionPop sound rooted inner popped entry.1).trans ?_
    subst here
    cases own with
    | false => exact shows entry member
    | true => exact raised rfl inner entry member

end Housed
namespace Kept

theorem same (kept : e.Kept handles values) (same : e.SameViews e') : e'.Kept handles values :=
  kept.imp same.fatal fun housed => housed.same same

theorem reordered (kept : e.Kept handles values) {handles' : List (Nat × Bool)}
    (same : handles.Perm handles') : e.Kept handles' values :=
  kept.imp_right fun housed => housed.reordered same

theorem retained (kept : e.Kept handles values) (tree : e'.scopes.tree = e.scopes.tree)
    (grounded : e.Grounded → e'.Grounded) (fatal : e.fatal = true → e'.fatal = true) :
    e'.Kept handles [] :=
  kept.imp fatal fun housed => housed.retained tree (grounded housed.grounded) nofun

theorem edits (kept : e.Kept handles values) (edits : Edits e e') : e'.Kept handles [] :=
  kept.retained edits.tree (fun grounded => grounded.edits edits) (Steady.edits edits).fatal

theorem internalError (e : Engine) (error : ScopeError) :
    (e.internalError error).Kept handles values := .inl rfl

theorem closeScope {handle : ScopeHandle} {own : Bool}
    (kept : e.Kept (held handle own ++ handles) values) (raised : own = true → e.Raised values)
    (report : Bool) : (e.closeScope handle report).Kept handles values := by
  obtain stops | housed := kept
  · exact .inl ((Steady.turns (.closeScope e handle report)).fatal stops)
  · cases handle with
    | none => exact .inr housed
    | some id =>
      obtain stops | ⟨rfl, e₁, scopes, up, views, popped, closed⟩ := closeScopeCases e id report
      · exact .inl stops
      · rw [closed]
        exact .inr ((housed.same views).closeCurrent (fun own => (raised own).same views)
          views.snapshot popped)

theorem openScope (kept : e.Kept handles []) (o : ScopeOpening) :
    (e.openScope o.create).2.Kept (held (e.openScope o.create).1 o.ownFrame ++ handles) [] := by
  obtain stops | housed := kept
  · exact .inl ((Steady.turns (.openScope e o)).fatal stops)
  · unfold Engine.openScope
    split
    case h_1 scopes id created =>
      have opened := housed.grounded.openScope created
      rw [ScopeOpening.createNested] at created
      obtain ⟨parent, found, rfl, -, tree⟩ := Scopes.treeCreateNested created
      have above := Scopes.liveTree found
      refine .inr ⟨opened.same rfl rfl, tree ▸ housed.rooted.enter housed.sound above .., ?_, ?_,
        nofun⟩
      · intro handle member
        refine tree ▸ ?_
        obtain rfl | older := List.mem_cons.mp member
        · rw [← Scopes.sizeTreeSnapshots]
          exact ScopeTree.belowInner above ..
        · exact (housed.below handle older).enter ..
      · refine List.nodup_cons.mpr ⟨fun member => ?_, housed.distinct⟩
        obtain ⟨handle, older, same⟩ := List.mem_map.mp member
        have bound := (housed.below handle older).bound
        rw [same, Scopes.sizeTreeSnapshots] at bound
        exact Nat.lt_irrefl _ bound.2
    case h_2 => exact internalError ..

theorem subdirectory {id : Nat} (kept : e.Kept handles values) (created : e.Subdirectory id e') :
    e'.Kept handles [] := by
  refine kept.imp (Steady.subdirectory created).fatal fun housed => ?_
  have grounded := (housed.grounded.subdirectory created).1
  cases created with
  | @created scopes source binary f opened hidden =>
    obtain ⟨parent, found, -, tree⟩ := Scopes.treeCreateDirectory opened
    have above := Scopes.liveTree found
    have same : ((scopes.setLocations id source binary).updateDirectory id f).tree = scopes.tree :=
      (Scopes.treeUpdateDirectory _ id hidden).trans (Scopes.treeSetLocations ..)
    rw [tree] at same
    refine ⟨grounded, ?_, fun handle member => ?_, housed.distinct, nofun⟩
    · exact same ▸ housed.rooted.enterDirectory housed.sound above
    · exact same ▸ (housed.below handle member).enterDirectory

theorem enterDirectory {id : Nat} (kept : e.Kept handles values) (created : e.Subdirectory id e') :
    (Runner.enterDirectory id e').Kept handles [] := by
  obtain stops | inside := kept.subdirectory created
  · exact .inl stops
  · refine kept.imp (Steady.subdirectory created).fatal fun housed => ?_
    obtain ⟨grounded, current, free⟩ := housed.grounded.subdirectory created
    have tree : (Runner.enterDirectory id e').scopes.tree = e'.scopes.tree := rfl
    exact inside.retained tree (grounded.enterDirectory current free) nofun

theorem leaveDirectory (kept : e.Kept handles values) (outer : Engine) :
    (Runner.leaveDirectory outer e).Kept handles [] :=
  kept.retained rfl (fun grounded => grounded.leaveDirectory outer) id

theorem closeBlockScopes {policies bindings : Option ScopeHandle} {propagate : List String}
    (kept : e.Kept ((Block.scope policies bindings propagate).handles ++ handles) values)
    (raised : e.Raised values) :
    (e.closeBlockScopes policies bindings propagate).Kept handles values := by
  have inner : (e.closeBlockScopes none bindings propagate).Kept
      (policies.join.toList.map (·, false) ++ handles) values := by
    rw [Block.handles, List.append_assoc] at kept
    cases bindings with
    | none => exact kept
    | some handle =>
      obtain stops | housed := kept
      · have raises := (Turns.raiseAll e propagate).trans (.counts (.closeLoopBarrier _))
        exact .inl ((Steady.turns (raises.trans (.closeScope _ handle true))).fatal stops)
      · have above := raised.raiseAll housed propagate
        have left := SameViews.counts (.closeLoopBarrier (e.raiseAll propagate))
        have inside : (e.raiseAll propagate).Kept (held handle true ++
            (policies.join.toList.map (·, false) ++ handles)) values :=
          .inr (housed.raiseAll propagate).1
        exact (inside.same left).closeScope (fun _ => above.same left) true
  cases policies with
  | none => exact inner
  | some handle => exact (inner.same (.popPolicy _)).closeScope nofun true

theorem abandon {b : Block} (kept : e.Kept (b.handles ++ handles) []) :
    (e.abandon b).Kept handles [] := by
  cases b with
  | scope => exact closeBlockScopes kept (.none e)
  | conditional => exact kept
  | definition => exact kept
  | whileLoop => exact Kept.same kept (.counts (.closeLoop e))
  | foreachLoop => exact Kept.same kept (.counts (.closeLoop e))

theorem abandonAll {blocks : List (OpenBlock Block)} (report : Bool)
    (kept : e.Kept (blocks.flatMap (·.block.handles) ++ handles) []) :
    (e.abandonAll report blocks).Kept handles [] := by
  induction blocks generalizing report e with
  | nil => exact kept
  | cons b rest ih =>
    rw [List.flatMap_cons, List.append_assoc] at kept
    rw [Engine.abandonAll]
    split
    · exact ih false (kept.same (.issueAt e .fatalError _ e.backtrace)).abandon
    · exact ih report kept.abandon

end Kept

theorem SameViews.closeBarrier (tidy : e.Tidy) (free : e.Free) (report : Bool) :
    e.SameViews (e.closeBarrier report) := by
  unfold Engine.closeBarrier
  rw [tidy.blocks.popBarrier, free]
  exact other rfl rfl rfl fun stops => stops

namespace Kept

theorem closeBarrier (kept : e.Kept (e.blocks.handles ++ handles) values) (tidy : e.Tidy)
    (free : values ≠ [] → e.Free) (report : Bool) :
    (e.closeBarrier report).Kept handles values := by
  by_cases none : values = []
  · subst none
    unfold Engine.closeBarrier
    rw [tidy.blocks.popBarrier]
    exact abandonAll report (Kept.same kept (.other rfl rfl rfl id))
  · rw [BlockStack.handlesEmpty (free none)] at kept
    exact Kept.same kept (.closeBarrier tidy (free none) report)

theorem openBarrier (kept : e.Kept handles values) : e.openBarrier.Kept handles values :=
  Kept.same kept (.other rfl rfl rfl id)

theorem holding : Holding fun handles e => e.Kept handles [] where
  openScope o kept := kept.openScope o
  edits kept edits := kept.edits edits
  counts kept counts := kept.same (.counts counts)
  openBlock _ _ _ kept := kept.same (.other rfl rfl rfl id)

theorem opening (kept : e.Kept (e.blocks.handles ++ handles) []) (opening : Opening e e') :
    e'.Kept (e'.blocks.handles ++ handles) [] :=
  holding.opening kept opening

theorem openFunction (kept : e.Kept handles []) (file : String) (policies : PolicySettings) :
    (e.openFunction file policies).2.Kept (held (e.openFunction file policies).1 true ++ handles)
      [] := by
  have opened := (kept.openScope (.functionCall file)).same (.counts (.openLoopBarrier _))
  exact opened.openBarrier.edits (.pushPolicy _ true policies)

theorem openMacro (kept : e.Kept handles []) (file : String) (policies : PolicySettings) :
    (e.openMacro file policies).2.Kept (held (e.openMacro file policies).1 false ++ handles)
      [] :=
  (kept.openScope (.macroCall file)).openBarrier.edits (.pushPolicy _ true policies)

theorem closeBarrierScope {handle : ScopeHandle}
    (kept : e.Kept (e.blocks.handles ++ (held handle false ++ handles)) values) (tidy : e.Tidy)
    (free : values ≠ [] → e.Free) (report reportScope : Bool) :
    ((e.closeBarrier report).closeScope handle reportScope).Kept handles values :=
  (kept.closeBarrier tidy free report).closeScope nofun reportScope

theorem closeMacro {handle : ScopeHandle}
    (kept : e.Kept (e.blocks.handles ++ (held handle false ++ handles)) values) (tidy : e.Tidy)
    (free : values ≠ [] → e.Free) (report : Bool) :
    (e.closeMacro handle report).Kept handles values := by
  have edits := Edits.popPolicy e
  have popped := kept.same (.popPolicy e)
  rw [← (SameOpen.edits edits).blocks] at popped
  exact popped.closeBarrierScope (tidy.sameOpen (.edits edits))
    (fun some => (free some).sameOpen (.edits edits)) report report

theorem closeFunction {handle : ScopeHandle}
    (kept : e.Kept (e.blocks.handles ++ (held handle true ++ handles)) values)
    (raised : e.Raised values) (tidy : e.Tidy) (free : values ≠ [] → e.Free) (report : Bool) :
    (e.closeFunction handle report).Kept handles values := by
  have edits := Edits.popPolicy e
  have popped := kept.same (.popPolicy e)
  rw [← (SameOpen.edits edits).blocks] at popped
  have tidy' := tidy.sameOpen (.edits edits)
  have free' some := (free some).sameOpen (.edits edits)
  have taken := popped.closeBarrier tidy' free' report
  have above : (e.popPolicy.2.closeBarrier report).Raised values := by
    by_cases none : values = []
    · subst none
      exact .none _
    · exact (raised.same (.popPolicy e)).same (.closeBarrier tidy' (free' none) report)
  exact Kept.same (taken.closeScope (fun _ => above) report) (.counts (.closeLoopBarrier _))

end Kept
end Engine
end CMakeScript
