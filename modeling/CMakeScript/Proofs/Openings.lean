import CMakeScript.Proofs.CommandEdits
import CMakeScript.Proofs.SingleBlock
/-! The commands that open a block: edits, and then at most one block that is opened. -/
namespace CMakeScript

def Block.isScope : Block → Bool
  | scope _ _ _ => true
  | _ => false

def Block.isLoop : Block → Bool
  | whileLoop _ | foreachLoop _ _ _ => true
  | _ => false

theorem Block.loopOrdinary {block : Block} (loop : block.isLoop = true) : block.isScope = false := by
  cases block with
  | whileLoop | foreachLoop => rfl
  | _ => cases loop

theorem Block.scopeOf {block : Block} (scope : block.isScope = true) :
    ∃ policies bindings propagate, block = .scope policies bindings propagate := by
  cases block with
  | scope policies bindings propagate => exact ⟨policies, bindings, propagate, rfl⟩
  | _ => cases scope

inductive Opening (e : Engine) : Engine → Prop where
  | plain {block : Block} {opens closes : String} (ordinary : block.isScope = false)
    (single : block.isLoop = false) (closer : Command.notCallable.contains closes = true) :
    Opening e (e.openBlock block opens closes)
  | loop {block : Block} {opens closes : String} (repeats : block.isLoop = true)
    (closer : Command.notCallable.contains closes = true) :
    Opening e (e.openLoop.openBlock block opens closes)
  | scopes {kinds : Command.ScopeKinds} {propagated : List String}
    (some : (kinds.forVariables || kinds.forPolicies) = true) :
    Opening e (Command.openScopes kinds propagated e).2

theorem Engine.SameOpen.openPolicyScope (e : Engine) : e.SameOpen e.openPolicyScope.2 :=
  (openScope e Scopes.createPolicyScope).trans (.edits (.pushPolicy ..))

theorem Engine.SameOpen.openVariableScope (e : Engine) : e.SameOpen e.openVariableScope.2 :=
  (openScope e Scopes.createVariableScope).trans (.counts (.openLoopBarrier _))

namespace Command

inductive ScopesOpened (e : Engine) : ScopeKinds → Option ScopeHandle → Option ScopeHandle →
    Engine → Prop where
  | neither : ScopesOpened e ⟨false, false⟩ none none e
  | policies : ScopesOpened e ⟨false, true⟩ (some e.openPolicyScope.1) none e.openPolicyScope.2
  | bindings : ScopesOpened e ⟨true, false⟩ none (some e.openVariableScope.1)
      e.openVariableScope.2
  | both : ScopesOpened e ⟨true, true⟩ (some e.openPolicyScope.1)
      (some e.openPolicyScope.2.openVariableScope.1) e.openPolicyScope.2.openVariableScope.2

theorem ScopesOpened.sameOpen {kinds : ScopeKinds} {policies bindings : Option ScopeHandle}
    {e e' : Engine} (scopes : ScopesOpened e kinds policies bindings e') : e.SameOpen e' := by
  cases scopes with
  | neither => exact .refl e
  | policies => exact .openPolicyScope e
  | bindings => exact .openVariableScope e
  | both => exact (Engine.SameOpen.openPolicyScope e).trans (.openVariableScope _)

theorem openScopesCases (kinds : ScopeKinds) (propagated : List String) (e : Engine) :
    ∃ policies bindings e₁, ScopesOpened e kinds policies bindings e₁ ∧
      (openScopes kinds propagated e).2 =
        e₁.openBlock (.scope policies bindings propagated) "block" "endblock" := by
  rcases kinds with ⟨_ | _, _ | _⟩
  · exact ⟨none, none, e, .neither, rfl⟩
  · exact ⟨_, none, _, .policies, rfl⟩
  · exact ⟨none, _, _, .bindings, rfl⟩
  · refine ⟨_, _, _, .both, ?_⟩
    simp only [openScopes, if_true]
    rfl

theorem openScopesBlock (kinds : ScopeKinds) (propagated : List String) (e : Engine) :
    ∃ policies bindings e₁, e.SameOpen e₁ ∧ (openScopes kinds propagated e).2 =
      e₁.openBlock (.scope policies bindings propagated) "block" "endblock" := by
  obtain ⟨policies, bindings, e₁, scopes, opened⟩ := openScopesCases kinds propagated e
  exact ⟨policies, bindings, e₁, scopes.sameOpen, opened⟩

end Command
namespace Step

def OpensAt (s : Step Verdict) (e : Engine) : Prop :=
  ∃ e₁, CMakeScript.Edits e e₁ ∧
    ((s e).1.Stands e₁ (s e).2 ∨ (s e).1 = .done ∧ Opening e₁ (s e).2)

def Opens (s : Step Verdict) : Prop := ∀ e, s.OpensAt e

theorem opensActs {s : Step Verdict} (acts : s.Acts) : s.Opens := by
  intro e
  obtain ⟨e₁, edits, stands⟩ := acts e
  exact ⟨e₁, edits, .inl stands⟩

theorem opensEdits {s : Step Verdict} (edits : s.Edits) : s.Opens := opensActs (actsEdits edits)

theorem opensBind {α : Type} {s : Step α} {k : α → Step Verdict} (edits : s.Edits)
    (rest : ∀ a, (k a).Opens) : (s >>= k).Opens := by
  intro e
  obtain ⟨e₁, more, ending⟩ := rest (s e).1 (s e).2
  exact ⟨e₁, (edits e).trans more, ending⟩

theorem opensBlock {block : Block} {opens closes : String} (ordinary : block.isScope = false)
    (single : block.isLoop = false) (closer : Command.notCallable.contains closes = true) :
    (do modify fun e => e.openBlock block opens closes; done : Step Verdict).Opens :=
  fun e => ⟨e, .refl e, .inr ⟨rfl, .plain ordinary single closer⟩⟩

theorem opensLoop {block : Block} {opens closes : String} (repeats : block.isLoop = true)
    (closer : Command.notCallable.contains closes = true) :
    (do modify fun e => e.openLoop.openBlock block opens closes; done : Step Verdict).Opens :=
  fun e => ⟨e, .refl e, .inr ⟨rfl, .loop repeats closer⟩⟩

end Step
open Step
namespace Command

theorem ifBlockOpens (arguments : List Argument) : (ifBlock arguments).Opens := by
  unfold ifBlock
  refine opensBind (editsWords arguments) fun words => ?_
  cases words with
  | none => exact opensEdits editsDone
  | some words =>
    refine opensBind editsGet fun e => opensBind (Condition.evaluateEdits _ _) fun result => ?_
    cases result with
    | error error => exact opensEdits (editsFatal _)
    | ok held => exact opensBlock rfl rfl (by decide)

theorem whileLoopOpens (arguments : List Argument) : (whileLoop arguments).Opens := by
  unfold whileLoop
  split
  · exact opensEdits (editsFail _)
  · exact opensLoop rfl (by decide)

theorem defineOpens (kind : DefinitionKind) (words : List String) : (define kind words).Opens := by
  unfold define
  cases words with
  | nil => exact opensEdits (editsFail _)
  | cons name parameters => cases kind <;> exact opensBlock rfl rfl (by decide)

theorem openForeachOpens (words : List String) (count : Nat) (zip : Bool) :
    (openForeach words count zip).Opens :=
  opensLoop rfl (by decide)

theorem foreachInOpens (names words : List String) : (foreachIn names words).Opens := by
  unfold foreachIn
  refine opensBind editsGet fun e => ?_
  split
  · exact opensEdits (editsFatal _)
  · split
    · exact opensEdits (editsFatal _)
    · split
      · exact opensEdits (editsFatal _)
      · exact openForeachOpens _ _ _

theorem foreachLoopOpens (words : List String) : (foreachLoop words).Opens := by
  unfold foreachLoop
  split
  · exact foreachInOpens _ _
  · split
    · exact opensEdits (editsFail _)
    · split
      · exact opensActs (actsFailFatally _)
      · exact openForeachOpens _ _ _
    · exact openForeachOpens _ _ _

theorem readKinds {words : List String} {k kinds : ScopeKinds}
    (read : ScopeKinds.read k words = .ok kinds)
    (named : words ≠ [] ∨ (k.forVariables || k.forPolicies) = true) :
    (kinds.forVariables || kinds.forPolicies) = true := by
  fun_induction ScopeKinds.read k words with
  | case1 k =>
    cases read
    simpa using named
  | case2 k rest ih => exact ih read (.inr (by simp))
  | case3 k rest ih => exact ih read (.inr (by simp))
  | case4 => cases read

theorem scopeBlockOpens (words : List String) : (scopeBlock words).Opens := by
  unfold scopeBlock
  split
  · exact opensActs (actsFailFatally _)
  case h_2 r read =>
    split
    case isTrue => exact opensEdits (editsFatal _)
    case isFalse someScope =>
      dsimp only
      split
      · exact opensActs (actsFailFatally _)
      case h_2 kinds wanted =>
        split
        · exact opensActs (actsFailFatally _)
        · refine fun e => ⟨e, .refl e, .inr ⟨rfl, .scopes ?_⟩⟩
          split at wanted
          case h_1 =>
            cases wanted
            rfl
          case h_2 scopes given =>
            refine readKinds wanted (.inl fun none => someScope ?_)
            rw [given, List.reverse_eq_nil_iff.mp none]

end Command
end CMakeScript
