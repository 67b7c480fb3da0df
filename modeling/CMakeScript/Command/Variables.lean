import CMakeScript.Engine.Nesting
/-! Setting and unsetting of variables, in the current scope, the enclosing one, the cache or the
environment; and options, which are cache entries that hold a truth value. -/
namespace CMakeScript.Command

inductive EnvironmentName where
  | notOne
  | name (name : String)
  | insideCharacter
  deriving DecidableEq, Repr

def environmentName (text : String) : EnvironmentName :=
  let cs := text.toList
  if ['E', 'N', 'V', '\x7b'].isPrefixOf cs && 5 < Text.byteLength cs then
    match cs.getLast? with
    | some last =>
      if Text.isAscii last then .name (String.ofList ((cs.drop 4).dropLast)) else .insideCharacter
    | none => .notOne
  else .notOne

def setEnvironment (name value : String) (rest : List String) : Step Verdict := do
  if value.isEmpty then
    modify fun e => { e with environment := e.environment.erase name }
  else
    modify fun e => { e with environment := e.environment.insert name value }
    match rest with
    | [] => pure ()
    | extra :: _ =>
      modify (·.issue .authorWarning
        ("Only the first value argument is used when setting an environment variable.  " ++
          "Argument '" ++ extra ++ "' and later are unused."))
  Step.done

structure SetRequest where
  values : List String
  parentScope : Bool := false
  force : Bool := false
  cache : Option (String × String) := none
  misused : Bool := false
  deriving DecidableEq, Repr

def SetRequest.read (values : List String) : SetRequest :=
  let count := values.length
  if values.getLast? = some "PARENT_SCOPE" then
    { values := values.dropLast, parentScope := true }
  else
    let force := 3 < count && values.getLast? == some "FORCE"
    let plain := if force then values.dropLast else values
    let tail := plain.drop (plain.length - 3)
    let misused := values.getLast? == some "CACHE" || values.dropLast.getLast? == some "CACHE"
    match tail with
    | ["CACHE", type, help] =>
      { values := plain.take (plain.length - 3), force, cache := some (type, help), misused }
    | _ => { values := plain, force, misused := misused || force }

def setCache (name value type help : String) (force : Bool) : Step Verdict := do
  let type ← (match CacheType.ofKeyword? type with
    | some type => pure type
    | none => do
      modify (·.issue .authorWarning ("implicitly converting '" ++ type ++ "' to 'STRING' type."))
      pure .string : Step CacheType)
  let known := ((← get).cache[name]?).any fun entry => entry.type != .uninitialized
  if known && type != .internal && !force then Step.done
  else
    modify (·.cacheDefine name value help type force)
    Step.done

def setVariable : List String → Step Verdict
  | [] => Step.fail "called with incorrect number of arguments"
  | [name] => do
    modify (·.undefine name)
    Step.done
  | name :: value :: rest => do
    if value = "PARENT_SCOPE" ∧ rest.isEmpty then
      modify (·.raise name none)
      Step.done
    else match environmentName name with
      | .insideCharacter => pure .halted
      | .name inner => setEnvironment inner value rest
      | .notOne =>
        let request := SetRequest.read (value :: rest)
        let value := ListValue.join request.values
        if request.parentScope then
          modify (·.raise name (some value))
          Step.done
        else if request.misused || (name = "CACHE" && rest.isEmpty) then
          Step.fail "given invalid arguments for CACHE mode."
        else match request.cache with
          | some (type, help) => setCache name value type help request.force
          | none =>
            modify (·.define name value)
            Step.done

def unsetVariable (arguments : List String) : Step Verdict := do
  match arguments with
  | [] => Step.fail "called with incorrect number of arguments"
  | [name] =>
    match environmentName name with
    | .insideCharacter => pure .halted
    | .name inner =>
      modify fun e => { e with environment := e.environment.erase inner }
      Step.done
    | .notOne =>
      modify (·.undefine name)
      Step.done
  | [name, scope] =>
    match environmentName name with
    | .insideCharacter => pure .halted
    | .name inner =>
      modify fun e => { e with environment := e.environment.erase inner }
      Step.done
    | .notOne =>
      if scope = "CACHE" then
        modify fun e => { e with cache := e.cache.erase name }
        Step.done
      else if scope = "PARENT_SCOPE" then
        modify (·.raise name none)
        Step.done
      else Step.fail "called with an invalid second argument"
  | _ => Step.fail "called with incorrect number of arguments"

def declareOption (name help : String) (initial : Option String) : Step Verdict := do
  let e ← get
  if (e.normal? name).isSome then Step.done
  else match e.cache[name]? with
    | some entry =>
      if entry.type = .uninitialized then
        modify (·.cacheDefine name (initial.getD entry.value) help .bool false)
      else
        modify fun e =>
          { e with cache := (e.cache.setProperty? name "HELPSTRING" help false).getD e.cache }
      Step.done
    | none =>
      modify (·.cacheDefine name (initial.getD "Off") help .bool false)
      Step.done

def option : List String → Step Verdict
  | [name, help] => declareOption name help none
  | [name, help, initial] => declareOption name help (some initial)
  | arguments =>
    Step.fail ("called with incorrect number of arguments: " ++ Text.join " " arguments)

end CMakeScript.Command
