import CMakeScript.Engine.Policies
/-! Opening and closing of scopes, loops and blocks. Every scope is closed by the name it was opened
under; policy frames left open in it are dropped first. -/
namespace CMakeScript.Engine

def raise (e : Engine) (name : String) (value : Option String) : Engine :=
  if name.isEmpty then e
  else match e.scopes.raise? e.snapshot name value with
    | some scopes => { e with scopes }
    | none =>
      e.issue .authorWarning ("Cannot set \"" ++ name ++ "\": current scope has no parent.")

def raiseAll (e : Engine) (names : List String) : Engine :=
  names.foldl (fun e name => e.raise name (e.normal? name)) e

def openScope (e : Engine) (create : Scopes → Nat → Except ScopeError (Scopes × Nat)) :
    ScopeHandle × Engine :=
  match create e.scopes e.snapshot with
  | .ok (scopes, id) => (some id, ({ e with scopes }.setSnapshot id).logged (.scopeOpened id))
  | .error error => (none, e.internalError error)

def dropPolicies (id : Nat) : Nat → Bool → Engine → Engine
  | 0, _, e => e
  | fuel + 1, report, e =>
    if e.scopes.atPolicyBoundary id then e
    else
      let e :=
        if report then e.issue .fatalError "cmake_policy PUSH without matching POP" else e
      match e.scopes.popPolicy id with
      | .ok (some scopes) => dropPolicies id fuel false { e with scopes }
      | .ok none => e
      | .error error => e.internalError error

def closeScope (e : Engine) (handle : ScopeHandle) (report : Bool) : Engine :=
  match handle with
  | none => e
  | some expected =>
    if e.snapshot ≠ expected then e.internalError (.snapshotOrder expected e.snapshot)
    else
      let e := dropPolicies expected (e.scopes.policies.size + 1) report e
      match e.scopes.pop expected with
      | .ok (scopes, parent) =>
        ({ e with scopes }.setSnapshot parent).logged (.scopeClosed expected)
      | .error error => e.internalError error

def openLoop (e : Engine) : Engine :=
  match e.loops with
  | [] => e
  | n :: rest => { e with loops := (n + 1) :: rest }

def closeLoop (e : Engine) : Engine :=
  match e.loops with
  | [] => e
  | n :: rest => { e with loops := (n - 1) :: rest }

def endLoop (e : Engine) : Engine := (e.logged .loopEnded).closeLoop

def inLoop (e : Engine) : Bool := 0 < e.loops.headD 0

def openLoopBarrier (e : Engine) : Engine := { e with loops := 0 :: e.loops }

def closeLoopBarrier (e : Engine) : Engine :=
  match e.loops with
  | _ :: n :: rest => { e with loops := n :: rest }
  | _ => e

def openBarrier (e : Engine) : Engine :=
  { e with blocks := e.blocks.pushBarrier }.logged .barrierSet

def openVariableScope (e : Engine) : ScopeHandle × Engine :=
  let (handle, e) := e.openScope Scopes.createVariableScope
  (handle, e.openLoopBarrier)

def closeVariableScope (e : Engine) (handle : ScopeHandle) : Engine :=
  e.closeLoopBarrier.closeScope handle true

def openPolicyScope (e : Engine) : ScopeHandle × Engine :=
  let (handle, e) := e.openScope Scopes.createPolicyScope
  (handle, e.pushPolicy false {})

def closePolicyScope (e : Engine) (handle : ScopeHandle) : Engine :=
  e.popPolicy.2.closeScope handle true

def closeBlockScopes (e : Engine) (policies bindings : Option ScopeHandle)
    (propagate : List String) : Engine :=
  let e := match bindings with
    | some handle => (e.raiseAll propagate).closeVariableScope handle
    | none => e
  match policies with
  | some handle => e.closePolicyScope handle
  | none => e

def abandon (e : Engine) : Block → Engine
  | .conditional _ _ => e
  | .whileLoop _ => e.closeLoop
  | .foreachLoop _ _ _ => e.closeLoop
  | .definition _ _ _ => e
  | .scope policies bindings propagate => e.closeBlockScopes policies bindings propagate

def abandonAll (report : Bool) (e : Engine) : List (OpenBlock Block) → Engine
  | [] => e
  | b :: rest =>
    if report && !e.fatal then
      let e := e.issue .fatalError ("A logical block opening on the line\n  " ++
        b.opened.render none ++ "\nis not closed.")
      abandonAll false (e.abandon b.block) rest
    else abandonAll report (e.abandon b.block) rest

def closeBarrier (e : Engine) (report : Bool) : Engine :=
  let (blocks, unclosed) := e.blocks.popBarrier
  abandonAll report ({ e with blocks }.logged .barrierTaken) unclosed

def openFunction (e : Engine) (file : String) (policies : PolicySettings) :
    ScopeHandle × Engine :=
  let (handle, e) := e.openScope fun s origin => s.createFunctionCall origin file
  (handle, (e.openLoopBarrier.openBarrier).pushPolicy true policies)

def closeFunction (e : Engine) (handle : ScopeHandle) (report : Bool) : Engine :=
  ((e.popPolicy.2.closeBarrier report).closeScope handle report).closeLoopBarrier

def openMacro (e : Engine) (file : String) (policies : PolicySettings) : ScopeHandle × Engine :=
  let (handle, e) := e.openScope fun s origin => s.createMacroCall origin file
  (handle, e.openBarrier.pushPolicy true policies)

def closeMacro (e : Engine) (handle : ScopeHandle) (report : Bool) : Engine :=
  (e.popPolicy.2.closeBarrier report).closeScope handle report

def openBlock (e : Engine) (block : Block) (opens closes : String) : Engine :=
  { e with blocks := e.blocks.push block opens closes e.place }.logged .blockOpened

end CMakeScript.Engine
