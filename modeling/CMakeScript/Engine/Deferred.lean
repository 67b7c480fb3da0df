import CMakeScript.Engine.Messages
/-! Calls put off to the end of a directory. -/
namespace CMakeScript

inductive DeferError where
  | notNow (path : String)
  | notKnown (path : String)
  | noQueue
  deriving DecidableEq, Repr

namespace DeferError

def message : DeferError → String
  | notNow path =>
    "DEFER CALL may not be scheduled in directory:\n  " ++ path ++ "\nat this time."
  | notKnown path =>
    "DEFER DIRECTORY:\n  " ++ path ++ "\nis not known.  It may not have been processed yet."
  | noQueue => "DEFER CALL may not be scheduled at this time."

end DeferError

namespace Engine

def runAt? (e : Engine) (path : String) : Option Nat :=
  e.runs.toList.findIdx? fun run =>
    (e.scopes.directory? run.snapshot).any fun d => d.source == path

def deferTarget (e : Engine) : Option String → Except DeferError Nat
  | none => .ok e.current
  | some directory =>
    let path := Path.full directory e.sourceDir
    match e.runAt? path with
    | none => .error (.notKnown path)
    | some i =>
      if ((e.runs[i]?).bind (·.deferred)).isSome then .ok i else .error (.notNow path)

def deferredAt (e : Engine) (i : Nat) : Option (List DeferredCall) :=
  (e.runs[i]?).bind (·.deferred)

def queueLength (e : Engine) : Nat := ((e.deferredAt e.current).getD []).length

def waitingIds (e : Engine) (i : Nat) : List String :=
  (((e.deferredAt i).getD []).filter (·.waits)).map (·.id)

def deferCall (e : Engine) (directory id : Option String) (command : Command) :
    Except DeferError (String × Engine) := do
  let i ← e.deferTarget directory
  match e.deferredAt i with
  | none => .error .noQueue
  | some calls =>
    let id := id.getD ("__" ++ Text.decimal calls.length)
    .ok (id, e.changeQueue i (.deferred ⟨id, e.listFile, command⟩))

def deferCancel (e : Engine) (directory : Option String) (ids : List String) :
    Except DeferError Engine := do
  let i ← e.deferTarget directory
  .ok (e.changeQueue i (.cancelled ids))

def deferIds (e : Engine) (directory : Option String) :
    Except DeferError (List String × Engine) := do
  let i ← e.deferTarget directory
  let ids := e.waitingIds i
  .ok (ids, e.changeQueue i (.listed ids))

def deferFind (e : Engine) (directory : Option String) (id : String) :
    Except DeferError (Option DeferredCall) := do
  let i ← e.deferTarget directory
  .ok (((e.deferredAt i).getD []).find? fun call => !id.isEmpty && call.id == id)

end Engine
end CMakeScript
