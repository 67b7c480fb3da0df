import CMakeScript.Execution.Call
import CMakeScript.Proofs.OpenState
/-! The policies that a function or macro was defined with, put over those of its caller. What was
recorded are the entries that could be seen: old, new, or the explicit warning that the choice of a
version leaves. Nothing is recorded for a policy without an entry. -/
namespace CMakeScript

theorem Policy.memAll (p : Policy) : p ∈ all := by cases p <;> decide

theorem PolicySettings.getSet (m : PolicySettings) (p q : Policy) (status : PolicyStatus) :
    (m.set p status).get? q = if p = q then some status else m.get? q := by
  unfold get? set
  by_cases same : p = q
  · simp [same]
  · have kept : (fun entry : Policy × PolicyStatus => decide (entry.1 != p ∧ entry.1 == q)) =
        fun entry => entry.1 == q := by
      funext entry
      by_cases here : entry.1 = q
      · simp [here, Ne.symm same]
      · simp [here]
    rw [List.find?_cons_of_neg (by simpa using same), List.find?_filter, kept, if_neg same]

namespace PolicyFrames

theorem foldSettings (a : PolicyFrames) (frame : Nat) (policies : List Policy) (m : PolicySettings)
    (p : Policy) :
    (policies.foldl (fun acc q => match a.setting? frame q with
      | some status => acc.set q status
      | none => acc) m).get? p =
        if p ∈ policies then (a.setting? frame p).or (m.get? p) else m.get? p := by
  induction policies generalizing m with
  | nil => rfl
  | cons q rest ih =>
    have first : (match a.setting? frame q with
        | some status => m.set q status
        | none => m).get? p = if p = q then (a.setting? frame p).or (m.get? p) else m.get? p := by
      by_cases same : p = q
      · subst same
        cases a.setting? frame p <;> simp [PolicySettings.getSet]
      · cases a.setting? frame q <;> simp [PolicySettings.getSet, same, Ne.symm same]
    rw [List.foldl_cons, ih, first]
    by_cases same : p = q
    · subst same
      cases a.setting? frame p <;> simp
    · simp [same]

theorem flattenGet (a : PolicyFrames) (frame : Nat) (p : Policy) :
    (a.flatten frame).get? p = a.setting? frame p := by
  refine (foldSettings a frame Policy.all {} p).trans ?_
  rw [if_pos p.memAll]
  exact Option.or_none

end PolicyFrames

@[simp] theorem Scopes.policyDefine (s : Scopes) (id : Nat) (name value : String) :
    (s.define id name value).policy = s.policy := by
  unfold define
  split <;> rfl

namespace Engine

def setting? (e : Engine) (p : Policy) : Option PolicyStatus :=
  (e.scopes.snapshots.get? e.snapshot).bind fun here => e.scopes.policies.setting? here.policies p

variable {e e' : Engine}

theorem recordedSetting (e : Engine) (p : Policy) : e.recordPolicies.get? p = e.setting? p := by
  unfold recordPolicies Scopes.recordPolicies setting?
  split
  case h_1 here found => rw [found, PolicyFrames.flattenGet, Option.bind_some]
  case h_2 absent =>
    rw [absent]
    rfl

theorem policyRecorded (e : Engine) (p : Policy) :
    e.policy p = (e.recordPolicies.get? p).getD .warn := by
  rw [recordedSetting]
  rfl

theorem lookupStatuses (e : Engine) (p : Policy) : e.statuses.lookup p = some (e.policy p) := by
  cases p <;> rfl

theorem statusesOf (scopes : e'.scopes = e.scopes) (snapshot : e'.snapshot = e.snapshot) :
    e'.statuses = e.statuses := by
  simp only [statuses, policy, scopes, snapshot]

theorem statusesDefine (e : Engine) (name value : String) :
    (e.define name value).statuses = e.statuses := by
  change Policy.all.map (fun p => (p, (e.scopes.define e.snapshot name value).policy e.snapshot p)) = _
  rw [Scopes.policyDefine]
  rfl

theorem statusesError (e : Engine) (error : ScopeError) :
    (e.internalError error).statuses = e.statuses := by
  obtain ⟨nested, written, errorOccurred, issued, -⟩ :=
    issueAtCases e .internalError error.message e.backtrace
  have same : e.internalError error =
    ({ e with nested, written, errorOccurred } : Engine).setFatal := congrArg setFatal issued
  rw [same]
  exact statusesOf rfl rfl

theorem statusesPush (scopes : e'.scopes = e.scopes) (snapshot : e'.snapshot = e.snapshot)
    (weak : Bool) (settings : PolicySettings) :
    (e'.pushPolicy weak settings).statuses = (e.pushPolicy weak settings).statuses := by
  unfold pushPolicy
  rw [scopes, snapshot]
  split
  · exact statusesOf rfl snapshot
  · rw [statusesError, statusesError, statusesOf scopes snapshot]

theorem statusesDefineAll (entries : List (String × String)) (e : Engine) :
    (entries.foldl (fun e (name, value) => e.define name value) e).statuses = e.statuses := by
  induction entries generalizing e with
  | nil => rfl
  | cons entry rest ih => exact (ih _).trans (statusesDefine e entry.1 entry.2)

theorem statusesFunction (d : Definition) (values : List String) (e : Engine) :
    ((Runner.functionVariables d values).foldl (fun e (name, value) => e.define name value)
      (e.openFunction d.file d.policies).2).statuses =
    ((e.openScope (ScopeOpening.functionCall d.file).create).2.pushPolicy true
      d.policies).statuses := by
  have same (e : Engine) : e.openLoopBarrier.openBarrier.scopes = e.scopes := rfl
  exact (statusesDefineAll ..).trans (statusesPush (same _) rfl true d.policies)

theorem statusesMacro (d : Definition) (e : Engine) : (e.openMacro d.file d.policies).2.statuses =
    ((e.openScope (ScopeOpening.macroCall d.file).create).2.pushPolicy true d.policies).statuses := by
  have same (e : Engine) : e.openBarrier.scopes = e.scopes := rfl
  exact statusesPush (same _) rfl true d.policies

end Engine
end CMakeScript
