import CMakeScript.Engine.Messages
/-! Policies of a run, and cache entries, whose writing one of them governs. -/
namespace CMakeScript.Engine

def policy (e : Engine) (p : Policy) : PolicyStatus := e.scopes.policy e.snapshot p

def statuses (e : Engine) : List (Policy × PolicyStatus) :=
  Policy.all.map fun p => (p, e.policy p)

def setPolicy (e : Engine) (p : Policy) (status : PolicyStatus) : Engine :=
  { e with scopes := e.scopes.setPolicy e.snapshot p status }

def recordPolicies (e : Engine) : PolicySettings := e.scopes.recordPolicies e.snapshot

def setPolicyByName (e : Engine) (name : String) (status : PolicyStatus) : Bool × Engine :=
  match Policy.ofName? name with
  | some p => (true, e.setPolicy p status)
  | none =>
    (false, e.issue .fatalError
      ("Policy \"" ++ name ++ "\" is not known to this version of CMake."))

def statusFor (e : Engine) (version : Version) (p : Policy) : PolicyStatus :=
  if p.introduced.compare version != .gt then .new
  else match e.definition? ("CMAKE_POLICY_DEFAULT_" ++ p.name) with
    | some "NEW" => .new
    | some "OLD" => .old
    | _ => .warn

def oldestVersion : Version := ⟨2, 4, 0⟩

def effectiveVersion? (least : Version) : Option String → Option Version
  | none => some least
  | some text => do
    let most ← Version.parse? text
    if most.compare least = .lt then none
    else some (if most.compare .engine = .gt then .engine else most)

def setPolicyVersion (e : Engine) (least : String) (most : Option String) : Bool × Engine :=
  match Version.parse? least with
  | none =>
    (false, e.issue .fatalError ("Invalid policy version value \"" ++ least ++
      "\".  A numeric major.minor[.patch[.tweak]] must be given."))
  | some version =>
    if version.compare oldestVersion = .lt then
      (false, e.fatalError ("Compatibility with CMake < 2.4 is not supported by CMake >= 3.0.  " ++
        "For compatibility with older versions please use any CMake 2.8.x release or lower."))
    else if version.compare .engine = .gt then
      (false, e.fatalError ("An attempt was made to set the policy version of CMake to \"" ++
        least ++ "\" which is greater than this version of CMake.  This is not allowed because " ++
        "the greater version may have new policies not known to this CMake.  You may need a " ++
        "newer CMake version to build this project."))
    else match effectiveVersion? version most with
      | none =>
        (false, e.issue .fatalError ("Invalid policy max version value \"" ++ most.getD "" ++
          "\".  A numeric major.minor[.patch[.tweak]] must be given that is at least the min " ++
          "value \"" ++ least ++ "\"."))
      | some effective =>
        (true, Policy.all.foldl (fun e p => e.setPolicy p (e.statusFor effective p)) e)

def pushPolicy (e : Engine) (weak : Bool) (settings : PolicySettings) : Engine :=
  match e.scopes.pushPolicy e.snapshot settings weak with
  | .ok scopes => { e with scopes }
  | .error error => e.internalError error

def popPolicy (e : Engine) : Bool × Engine :=
  match e.scopes.popPolicy e.snapshot with
  | .ok (some scopes) => (true, { e with scopes })
  | .ok none => (false, e.issue .fatalError "cmake_policy POP without matching PUSH")
  | .error error => (false, e.internalError error)

def uncover (e : Engine) (name : String) : Engine :=
  match e.policy .cmp0126 with
  | .new => e
  | .old => e.undefine name
  | .warn =>
    let e :=
      if e.isOn "CMAKE_POLICY_WARNING_CMP0126" && (e.normal? name).isSome then
        e.issue .authorWarning (Policy.cmp0126.warning ++
          "\nFor compatibility with older versions of CMake, normal variable \"" ++ name ++
          "\" will be removed from the current scope.")
      else e
    e.undefine name

/-- Writes a cache entry. The value of an entry that has no type yet stays unless forced. -/
def cacheDefine (e : Engine) (name value help : String) (type : CacheType) (force : Bool) :
    Engine :=
  let value := match e.cache[name]? with
    | some entry => if entry.type = .uninitialized ∧ !force then entry.value else value
    | none => value
  { e with cache := e.cache.add name value help type }.uncover name

end CMakeScript.Engine
