import CMakeScript.Proofs.FileVariables
import CMakeScript.Proofs.ScopeReturn
/-! The scope in which commands are run. In every state in which a run goes on it is in place, and
what a command assigns there shows. -/
namespace CMakeScript

variable {e e' : Engine}

namespace Step

variable {α β ε : Type} {s : Step α} {a : α}

theorem bindRan {k : α → Step β} (ran : s e = (a, e')) : (s >>= k) e = k a e' := by
  change (fun both : α × Engine => k both.1 both.2) (s e) = k a e'
  rw [ran]

theorem liftRan {k : α → ExceptT ε Step β} (ran : s e = (a, e')) :
    (liftM s >>= k : ExceptT ε Step β) e = k a e' := by
  change (fun both : α × Engine => k both.1 both.2) (s e) = k a e'
  rw [ran]

theorem getRan (k : Engine → ExceptT ε Step β) (e : Engine) : (get >>= k) e = k e e := rfl

theorem modifyRan (f : Engine → Engine) (k : PUnit → ExceptT ε Step β) (e : Engine) :
    (modify f >>= k) e = k ⟨⟩ (f e) := rfl

end Step
namespace Engine

structure Writable (e : Engine) : Prop where
  placed : e.current < e.runs.size
  housed : e.Housed [] []

theorem writableReady {g : Departure} (ready : scopeReturn.Ready g e) (running : e.fatal = false) :
    e.Writable := by
  obtain stops | descends := ready.holds
  · cases running.symm.trans stops
  · exact ⟨descends.here, (Descends.begun running descends.here
      (BlockStack.handlesEmpty (ready.free trivial) ▸ descends.housed)).housed⟩

namespace Writable

theorem edits (writable : e.Writable) (edits : Edits e e') : e'.Writable where
  placed := by
    rw [(Quiet.edits edits).current, (Quiet.edits edits).processed]
    exact writable.placed
  housed := writable.housed.retained edits.tree (writable.housed.grounded.edits edits) nofun

theorem define (writable : e.Writable) (name value : String) : (e.define name value).Writable :=
  writable.edits (.define e name value)

theorem shows (writable : e.Writable) (name value : String) :
    (e.define name value).definition? name = some value :=
  definitionOfNormal (writable.housed.assigned writable.placed name (some value))

end Writable
end Engine
end CMakeScript
