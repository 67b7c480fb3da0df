import CMakeScript.Condition
import CMakeScript.Engine.Nesting
/-! Commands that open a branch, a scope or a definition, and those that are refused where they
stand. -/
namespace CMakeScript.Command

def ifBlock (arguments : List Argument) : Step Verdict := do
  match ← Step.words arguments with
  | none => Step.done
  | some words =>
    match ← Condition.evaluate words (← get).backtrace with
    | .error error => Step.fatal ("if " ++ Condition.describe words ++ error.message)
    | .ok held =>
      modify (·.openBlock (.conditional arguments held) "if" "endif")
      Step.done

def define (kind : DefinitionKind) : List String → Step Verdict
  | [] => Step.fail "called with incorrect number of arguments"
  | name :: parameters => do
    let (opens, closes) := match kind with
      | .function => ("function", "endfunction")
      | .macroCall => ("macro", "endmacro")
    modify (·.openBlock (.definition kind name parameters) opens closes)
    Step.done

inductive ScopePart where
  | nothing
  | scope
  | propagated
  deriving DecidableEq, Repr

structure ScopeRequest where
  part : ScopePart := .nothing
  scopeFor : Option (List String) := none
  propagated : List String := []
  deriving DecidableEq, Repr

namespace ScopeRequest

def read (r : ScopeRequest) : List String → Except String ScopeRequest
  | [] => .ok r
  | "SCOPE_FOR" :: rest => read { r with part := .scope, scopeFor := some (r.scopeFor.getD []) } rest
  | "PROPAGATE" :: rest => read { r with part := .propagated } rest
  | word :: rest =>
    match r.part with
    | .scope => read { r with scopeFor := some (word :: r.scopeFor.getD []) } rest
    | .propagated => read { r with propagated := word :: r.propagated } rest
    | .nothing => .error ("called with unsupported argument \"" ++ word ++ "\"")

end ScopeRequest

structure ScopeKinds where
  forVariables : Bool
  forPolicies : Bool
  deriving DecidableEq, Repr

def ScopeKinds.read (k : ScopeKinds) : List String → Except String ScopeKinds
  | [] => .ok k
  | "VARIABLES" :: rest => read { k with forVariables := true } rest
  | "POLICIES" :: rest => read { k with forPolicies := true } rest
  | word :: _ => .error ("SCOPE_FOR unsupported scope \"" ++ word ++ "\"")

def openScopes (kinds : ScopeKinds) (propagated : List String) : Step Verdict := do
  let e ← get
  let (policies, e) : Option ScopeHandle × Engine :=
    if kinds.forPolicies then
      let (handle, e) := e.openPolicyScope
      (some handle, e)
    else (none, e)
  let (bindings, e) : Option ScopeHandle × Engine :=
    if kinds.forVariables then
      let (handle, e) := e.openVariableScope
      (some handle, e)
    else (none, e)
  set (e.openBlock (.scope policies bindings propagated) "block" "endblock")
  Step.done

def scopeBlock (words : List String) : Step Verdict :=
  match ScopeRequest.read {} words with
  | .error reason => Step.failFatally reason
  | .ok r =>
    if r.scopeFor = some [] then Step.fatal "Keyword SCOPE_FOR must be followed by a value."
    else
      let kinds : Except String ScopeKinds := match r.scopeFor with
        | none => .ok ⟨true, true⟩
        | some scopes => ScopeKinds.read ⟨false, false⟩ scopes.reverse
      match kinds with
      | .error reason => Step.failFatally reason
      | .ok kinds =>
        if !kinds.forVariables && !r.propagated.isEmpty then
          Step.failFatally "PROPAGATE cannot be specified without a new scope for VARIABLES"
        else openScopes kinds r.propagated.reverse

def lenientRelease : Float := 1.4

def misplaced (m : Misplaced) : Step Verdict := do
  let lenient : Bool := match (← get).definition? "CMAKE_MINIMUM_REQUIRED_VERSION" with
    | none => true
    | some text => Text.leadingDouble text ≤ lenientRelease
  if m = .endIf ∧ lenient then Step.done else Step.fail m.message

def removed (text : String) : Step Verdict := do
  modify (·.issue .fatalError text)
  Step.done

end CMakeScript.Command
