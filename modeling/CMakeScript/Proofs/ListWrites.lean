import CMakeScript.Proofs.ListSteps
import CMakeScript.Proofs.Lookup
/-! What a command on a list writes. All of it goes to the frame of the current scope, so that the
writes are one change of that frame; what this leaves of a frame is left of what scopes see. -/
namespace CMakeScript

def Variables.bound? (v : Variables) (frame : Nat) (name : String) : Option (Option String) :=
  (v.get? frame).bind (·[name]?)

namespace Engine

variable {e : Engine} {names : List String}

def frame? (e : Engine) : Option Nat := (e.scopes.snapshots.get? e.snapshot).map (·.frame)

def rebind (e : Engine) (f : Bindings → Bindings) : Engine :=
  match e.frame? with
  | some frame => { e with scopes := { e.scopes with frames := e.scopes.frames.modify frame f } }
  | none => e

/-- Of the whole state nothing is assigned but these variables of the current scope. -/
structure AssignsOnly (names : List String) (e e' : Engine) : Prop where
  beside : e' = { e with scopes := { e.scopes with frames := e'.scopes.frames } }
  bound : ∀ {frame name}, (e.frame? = some frame → name ∉ names) →
    e'.scopes.frames.bound? frame name = e.scopes.frames.bound? frame name
  others : ∀ {name}, name ∉ names →
    ∀ id, e'.scopes.definition? id name = e.scopes.definition? id name
  apart : ∀ {id here}, e.scopes.snapshots.get? id = some here →
    (∀ frame, e.frame? = some frame →
      frame ∉ (e.scopes.frames.chain here.frame here.rootFrame).map Prod.fst) →
    ∀ name, e'.scopes.definition? id name = e.scopes.definition? id name

theorem rebindOnly {f : Bindings → Bindings}
    (kept : ∀ b : Bindings, ∀ name ∉ names, (f b)[name]? = b[name]?) :
    AssignsOnly names e (e.rebind f) := by
  unfold rebind
  cases placed : e.frame? with
  | none => exact ⟨rfl, fun _ => rfl, fun _ _ => rfl, fun _ _ _ => rfl⟩
  | some place =>
    refine ⟨rfl, fun {frame name} other => ?bound, fun {name} other id => ?others,
      fun {id here} live unseen name => ?apart⟩
    case bound =>
      dsimp only
      unfold Variables.bound?
      rw [Arena.getModify]
      split_ifs with same
      · cases e.scopes.frames.get? frame with
        | none => rfl
        | some b => exact kept b name (other (same ▸ placed))
      · rfl
    case others =>
      unfold Scopes.definition?
      refine congrArg _ (funext fun here => ?_)
      exact Variables.lookupKept (fun b => kept b name other) ..
    case apart =>
      unfold Scopes.definition?
      dsimp only
      rw [live]
      exact Variables.lookupApart f (unseen place placed) name

theorem rebindTwice (e : Engine) (f g : Bindings → Bindings) :
    (e.rebind f).rebind g = e.rebind (g ∘ f) := by
  unfold rebind
  cases placed : e.frame? with
  | none =>
    dsimp only
    rw [placed]
  | some frame =>
    have same : frame? { e with scopes :=
        { e.scopes with frames := e.scopes.frames.modify frame f } } = some frame := placed
    dsimp only
    rw [same]
    dsimp only
    rw [Arena.modifyTwice]

theorem rebindNothing (e : Engine) : e.rebind (fun b => b) = e := by
  unfold rebind
  split
  case h_1 => rw [Arena.modifySame fun _ => rfl]
  case h_2 => rfl

theorem assignRebinds (e : Engine) (name : String) (value : Option String) :
    e.assign name value = e.rebind (·.insert name value) := by
  unfold rebind frame? assign define undefine Scopes.define Scopes.undefine
  cases value <;> cases e.scopes.snapshots.get? e.snapshot <;> rfl

end Engine
namespace Command

namespace ListTask

open ListOperation (Write)

def insertAll (writes : List Write) (b : Bindings) : Bindings :=
  writes.foldl (fun b w => b.insert w.name w.value) b

theorem insertAllOthers {writes : List Write} {names : List String}
    (named : ∀ w ∈ writes, w.name ∈ names) (b : Bindings) :
    ∀ name ∉ names, (insertAll writes b)[name]? = b[name]? := by
  intro name other
  induction writes generalizing b with
  | nil => rfl
  | cons w writes ih =>
    obtain ⟨here, later⟩ := List.forall_mem_cons.mp named
    have different : w.name ≠ name := fun same => other (same ▸ here)
    refine (ih later _).trans ?_
    rw [Bindings.insertAt, if_neg different]

theorem writeAllRebinds (writes : List Write) (e : Engine) :
    writeAll writes e = e.rebind (insertAll writes) := by
  induction writes generalizing e with
  | nil => exact (e.rebindNothing).symm
  | cons w writes ih =>
    refine (ih (e.assign w.name w.value)).trans ?_
    rw [Engine.assignRebinds, Engine.rebindTwice]
    rfl

end ListTask

def listOutputs : List String → List String
  | word :: arguments => ListTask.outputs word arguments
  | [] => []

theorem listCases (words : List String) (e : Engine) :
    (∃ text, list words e = (.failed text, e)) ∨
      ∃ e', list words e = (.done, e') ∧ e.AssignsOnly (listOutputs words) e' := by
  rw [← ListTask.verdictList]
  match words with
  | [] | [_] => exact .inl ⟨_, rfl⟩
  | word :: name :: rest =>
    have performed := ListTask.answersPerform (e := e) word (name :: rest)
    have ran := performed.ran
    cases answered : ListOperation.answer e.definition? word (name :: rest) with
    | error text =>
      rw [answered] at ran
      exact .inl ⟨text, Step.bindRan ran⟩
    | ok writes =>
      rw [answered] at ran
      refine .inr ⟨ListTask.writeAll writes e, Step.bindRan ran, ?_⟩
      rw [ListTask.writeAllRebinds]
      exact Engine.rebindOnly (ListTask.insertAllOthers (performed.named writes answered))

/-- A command on a list fails in the state in which it was run, or it assigns its outputs in the
current scope and nothing else. So it does when it reads, checks and writes in turn. -/
theorem listAllOrNothing (words : List String) :
    list words = ListTask.verdict words ∧ ∀ e : Engine,
      (∃ text, list words e = (.failed text, e)) ∨
      ∃ e', list words e = (.done, e') ∧ e'.cache = e.cache ∧
        e.AssignsOnly (listOutputs words) e' := by
  refine ⟨(ListTask.verdictList words).symm, fun e => ?_⟩
  obtain failed | ⟨e', ran, only⟩ := listCases words e
  · exact .inl failed
  · refine .inr ⟨e', ran, ?_, only⟩
    rw [only.beside]

end Command
end CMakeScript
