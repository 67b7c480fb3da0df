import CMakeScript.Proofs.Moves
import CMakeScript.Proofs.Openings
/-! What opening and closing a scope, a barrier or a block is made of: edits that leave alone what
commands change for good, and entries of the log that tell of nothing else. -/
namespace CMakeScript

def Event.isScoping : Event → Bool
  | blockOpened | barrierSet | barrierTaken | scopeOpened _ | scopeClosed _ | bodyEnded => true
  | _ => false

inductive Turn (e : Engine) : Engine → Prop where
  | upkeep {e' : Engine} (edits : Edits e e') (still : e.Still e') : Turn e e'
  | counts {e' : Engine} (counts : e.Counts e') : Turn e e'
  | scope {scopes : Scopes} (kept : scopes.records = e.scopes.records) (id : Nat) {event : Event}
    (scoping : event.isScoping = true) :
    Turn e ((({ e with scopes } : Engine).setSnapshot id).logged event)
  | blocks (blocks : BlockStack Block) {event : Event} (scoping : event.isScoping = true) :
    Turn e ({ e with blocks }.logged event)
  | refused (error : ScopeError) : Turn e (e.internalError error)

def Turns : Engine → Engine → Prop := Relation.ReflTransGen Turn

namespace Turns

variable {e e' e'' : Engine}

theorem refl (e : Engine) : Turns e e := Relation.ReflTransGen.refl

theorem trans (first : Turns e e') (second : Turns e' e'') : Turns e e'' :=
  Relation.ReflTransGen.trans first second

theorem one (turn : Turn e e') : Turns e e' := Relation.ReflTransGen.single turn

theorem upkeep (edits : Edits e e') (still : e.Still e') : Turns e e' := one (.upkeep edits still)

theorem counts (counts : e.Counts e') : Turns e e' := one (.counts counts)

theorem carry {P : Engine → Engine → Prop} (same : ∀ e, P e e)
    (join : ∀ {e e' e''}, P e e' → P e' e'' → P e e'') (each : ∀ {e e'}, Turn e e' → P e e')
    (turns : Turns e e') : P e e' := by
  induction turns with
  | refl => exact same e
  | tail _ last ih => exact join ih (each last)

theorem logged (e : Engine) {event : Event} (scoping : event.isScoping = true) :
    Turns e (e.logged event) :=
  one (.blocks e.blocks scoping)

theorem openScope (e : Engine) (o : ScopeOpening) : Turns e (e.openScope o.create).2 := by
  unfold Engine.openScope
  split
  case h_1 scopes id opened => exact one (.scope (Scopes.recordsOpened opened) id rfl)
  case h_2 error failed => exact one (.refused error)

theorem dropPoliciesCarry {P : Engine → Engine → Prop} {id : Nat} (same : ∀ e, P e e)
    (join : ∀ {e e' e''}, P e e' → P e' e'' → P e e'')
    (reported : ∀ e text, P e (e.issue .fatalError text))
    (popped : ∀ {e : Engine} {scopes}, e.scopes.popPolicy id = .ok (some scopes) →
      P e { e with scopes })
    (lost : ∀ e error, P e (e.internalError error)) (fuel : Nat) (report : Bool) (e : Engine) :
    P e (Engine.dropPolicies id fuel report e) := by
  induction fuel generalizing report e with
  | zero => exact same e
  | succ fuel ih =>
    rw [Engine.dropPolicies]
    split
    · exact same e
    · have reported : P e
          (if report then e.issue .fatalError "cmake_policy PUSH without matching POP" else e) := by
        split
        · exact reported ..
        · exact same e
      generalize (if report then e.issue .fatalError "cmake_policy PUSH without matching POP"
        else e) = e₁ at reported ⊢
      refine join reported ?_
      dsimp only
      split
      case h_1 scopes found => exact join (popped found) (ih false _)
      case h_2 => exact same e₁
      case h_3 => exact lost ..

theorem dropPolicies {id : Nat} (fuel : Nat) (report : Bool) (here : e.snapshot = id) :
    Turns e (Engine.dropPolicies id fuel report e) :=
  upkeep (.dropPolicies fuel report here) (dropPoliciesCarry .refl .trans
    (fun e text => .issueAt e .fatalError text e.backtrace)
    (fun popped => .scopes _ (Scopes.recordsPopPolicy popped)) .internalError fuel report e)

theorem raiseAll (e : Engine) (names : List String) : Turns e (e.raiseAll names) :=
  upkeep (.raiseAll ..) (.raiseAll ..)

theorem defineAll (entries : List (String × String)) (e : Engine) :
    Turns e (entries.foldl (fun e (name, value) => e.define name value) e) :=
  upkeep (.defineAll ..) (.defineAll ..)

theorem pushPolicy (e : Engine) (weak : Bool) (settings : PolicySettings) :
    Turns e (e.pushPolicy weak settings) :=
  upkeep (.pushPolicy ..) (.pushPolicy ..)

theorem popPolicy (e : Engine) : Turns e e.popPolicy.2 := upkeep (.popPolicy e) (.popPolicy e)

theorem closeScope (e : Engine) (handle : ScopeHandle) (report : Bool) :
    Turns e (e.closeScope handle report) := by
  unfold Engine.closeScope
  cases handle with
  | none => exact refl e
  | some id =>
    dsimp only
    split
    · exact one (.refused _)
    case isFalse here =>
      have current := Decidable.not_not.mp here
      refine (dropPolicies (e.scopes.policies.size + 1) report current).trans ?_
      generalize Engine.dropPolicies id (e.scopes.policies.size + 1) report e = e₁
      split
      case h_1 scopes up popped => exact one (.scope (Scopes.recordsPopped popped) up rfl)
      case h_2 error failed => exact one (.refused error)

theorem closeBlockScopes (e : Engine) (policies bindings : Option ScopeHandle)
    (propagate : List String) : Turns e (e.closeBlockScopes policies bindings propagate) :=
  Engine.closeBlockScopesCarry refl trans raiseAll (fun e => counts (.closeLoopBarrier e)) closeScope
    (fun e handle => (popPolicy e).trans (closeScope _ handle true)) e policies bindings propagate

theorem abandon (e : Engine) (block : Block) : Turns e (e.abandon block) :=
  Engine.abandonCarry refl (fun e => counts (.closeLoop e)) closeBlockScopes e block

theorem abandonAll (report : Bool) (e : Engine) (blocks : List (OpenBlock Block)) :
    Turns e (e.abandonAll report blocks) :=
  Engine.abandonAllCarry refl trans
    (fun e text => upkeep (.issue e .fatalError (by decide) text) (.issueAt ..)) abandon report e
    blocks

theorem openBarrier (e : Engine) : Turns e e.openBarrier := one (.blocks _ rfl)

theorem closeBarrier (e : Engine) (report : Bool) : Turns e (e.closeBarrier report) := by
  have taken : Turns e ({ e with blocks := e.blocks.popBarrier.1 }.logged .barrierTaken) :=
    one (.blocks _ rfl)
  exact taken.trans (abandonAll ..)

theorem openBlock (e : Engine) (block : Block) (opens closes : String) :
    Turns e (e.openBlock block opens closes) :=
  one (.blocks _ rfl)

theorem openScopes (kinds : Command.ScopeKinds) (propagated : List String) (e : Engine) :
    Turns e (Command.openScopes kinds propagated e).2 := by
  have policies (e : Engine) : Turns e e.openPolicyScope.2 :=
    (openScope e .policyScope).trans (pushPolicy ..)
  have bindings (e : Engine) : Turns e e.openVariableScope.2 :=
    (openScope e .variableScope).trans (counts (.openLoopBarrier _))
  obtain ⟨_, _, e₁, scopes, opened⟩ := Command.openScopesCases kinds propagated e
  rw [opened]
  refine Turns.trans ?_ (openBlock ..)
  cases scopes with
  | neither => exact refl e
  | policies => exact policies e
  | bindings => exact bindings e
  | both => exact (policies e).trans (bindings _)

theorem opening (opening : Opening e e') : Turns e e' := by
  cases opening with
  | plain => exact openBlock ..
  | loop => exact (counts (.openLoop e)).trans (openBlock ..)
  | scopes => exact openScopes ..

theorem openFunction (e : Engine) (file : String) (policies : PolicySettings) :
    Turns e (e.openFunction file policies).2 := by
  have looped := (openScope e (.functionCall file)).trans (counts (.openLoopBarrier _))
  have pushed : Turns _ (e.openFunction file policies).2 := pushPolicy _ true policies
  exact (looped.trans (openBarrier _)).trans pushed

theorem openMacro (e : Engine) (file : String) (policies : PolicySettings) :
    Turns e (e.openMacro file policies).2 := by
  have pushed : Turns _ (e.openMacro file policies).2 := pushPolicy _ true policies
  exact ((openScope e (.macroCall file)).trans (openBarrier _)).trans pushed

theorem closeMacro (e : Engine) (handle : ScopeHandle) (report : Bool) :
    Turns e (e.closeMacro handle report) :=
  ((popPolicy e).trans (closeBarrier ..)).trans (closeScope ..)

theorem closeFunction (e : Engine) (handle : ScopeHandle) (report : Bool) :
    Turns e (e.closeFunction handle report) :=
  (closeMacro ..).trans (counts (.closeLoopBarrier _))

theorem closeBarrierScope (e : Engine) (handle : ScopeHandle) (report reportScope : Bool) :
    Turns e ((e.closeBarrier report).closeScope handle reportScope) :=
  (closeBarrier ..).trans (closeScope ..)

end Turns

namespace Engine

variable {e e' : Engine}

theorem Still.turns (turns : Turns e e') : e.Still e' := by
  refine turns.carry .refl .trans fun {e e'} turn => ?_
  have idle {event : Event} (scoping : event.isScoping = true) : event.acts = false := by
    cases event <;> first | rfl | cases scoping
  cases turn with
  | upkeep _ still => exact still
  | counts counts =>
    cases counts
    exact .other rfl rfl (fun stops => stops) rfl
  | @scope scopes kept id _ scoping =>
    have moved : e.Still (({ e with scopes } : Engine).setSnapshot id) :=
      (Still.scopes e kept).trans (.other rfl rfl (fun stops => stops) rfl)
    exact moved.trans (.logged _ (idle scoping))
  | blocks blocks scoping =>
    have moved : e.Still { e with blocks } := .other rfl rfl (fun stops => stops) rfl
    exact moved.trans (.logged _ (idle scoping))
  | refused error => exact .internalError ..

theorem writtenTurns (turns : Turns e e') : ∀ w ∈ e.written, w ∈ e'.written := by
  refine turns.carry (P := fun e e' => ∀ w ∈ e.written, w ∈ e'.written) (fun _ _ kept => kept)
    (fun first second w kept => second w (first w kept)) fun {e e'} turn => ?_
  cases turn with
  | upkeep edits => exact (SameOpen.edits edits).written
  | counts counts => exact (SameOpen.counts counts).written
  | scope => exact fun _ kept => kept
  | blocks => exact fun _ kept => kept
  | refused error => exact (SameOpen.internalError e error).written

theorem ErrorShown.turns (told : e.ErrorShown) (turns : Turns e e') : e'.ErrorShown := by
  obtain ⟨w, kept, error⟩ := told
  exact ⟨w, writtenTurns turns w kept, error⟩

theorem ErrorShown.sameOpen (told : e.ErrorShown) (same : e.SameOpen e') : e'.ErrorShown := by
  obtain ⟨w, kept, error⟩ := told
  exact ⟨w, same.written w kept, error⟩

end Engine
inductive Engine.Subdirectory (e : Engine) (id : Nat) : Engine → Prop where
  | created {scopes : Scopes} (source binary : String) {f : Directory → Directory}
    (opened : e.scopes.createDirectory e.snapshot = .ok (scopes, id))
    (hidden : ∀ d, (f d).current = d.current ∧ (f d).children = d.children)
    (unlisted : ∀ d, (f d).targetNames = d.targetNames := by exact fun _ => rfl) :
    Subdirectory e id
      { e with scopes := (scopes.setLocations id source binary).updateDirectory id f }

theorem Engine.SameOpen.subdirectory {e e' : Engine} {id : Nat} (created : e.Subdirectory id e') :
    e.SameOpen e' := by
  cases created
  exact .scopes e _

end CMakeScript
