import CMakeScript.Command.BuildSettings
import CMakeScript.Command.Project
import CMakeScript.Execution.Files
/-! Commands that run other files. -/
namespace CMakeScript
namespace Runner

structure IncludeRequest where
  isOptional : Bool := false
  keepPolicies : Bool := false
  output : Option String := none
  deriving DecidableEq, Repr

def IncludeRequest.read (r : IncludeRequest) (isFirst : Bool) :
    List String → Except String IncludeRequest
  | [] => .ok r
  | "OPTIONAL" :: rest =>
    if r.isOptional then .error "called with invalid arguments: OPTIONAL used twice"
    else read { r with isOptional := true } false rest
  | "RESULT_VARIABLE" :: rest =>
    if r.output.isSome then
      .error "called with invalid arguments: only one result variable allowed"
    else match rest with
      | [] => .error "called with no value for RESULT_VARIABLE."
      | name :: rest => read { r with output := some name } false rest
  | "NO_POLICY_SCOPE" :: rest => read { r with keepPolicies := true } false rest
  | word :: rest =>
    if isFirst then read r false rest else .error ("called with invalid argument: " ++ word)

def findModule? (e : Engine) (name : String) : Option String :=
  (ListValue.split (e.value "CMAKE_MODULE_PATH")).findSome? fun directory =>
    let path := Path.full (directory ++ "/" ++ name) e.sourceDir
    if e.platform.isFile path then some path else none

def includedName (e : Engine) (name : String) : String :=
  if Command.isFullPath name then name else (findModule? e (name ++ ".cmake")).getD name

def includeRequested (r : Runner) (name : String) (request : IncludeRequest) : Run Verdict := do
  let e ← get
  let file := includedName e name
  let path := Path.full file e.sourceDir
  let found ← r.includeFile path request.keepPolicies
  match request.output with
  | some output => modify (·.define output (if found then path else "NOTFOUND"))
  | none => pure ()
  if !request.isOptional && !found && !(← get).fatal then
    return .failed ("could not find requested file:\n  " ++ file)
  else return .done

def includeCommand (r : Runner) (words : List String) : Run Verdict := do
  match words with
  | [] => return .failed wrongCount
  | name :: options =>
    if 4 < words.length then return .failed wrongCount
    else match IncludeRequest.read {} true options with
      | .error reason => return .failed reason
      | .ok request =>
        if name.isEmpty then
          modify (·.issue .authorWarning "include() given empty file name (ignored).")
          return .done
        else r.includeRequested name request
where
  wrongCount := "called with wrong number of arguments.  include() only takes one file."

structure SubdirectoryRequest where
  binary : Option String := none
  marks : DirectoryMarks := {}
  deriving DecidableEq, Repr

def SubdirectoryRequest.read? (r : SubdirectoryRequest) :
    List String → Option SubdirectoryRequest
  | [] => some r
  | "EXCLUDE_FROM_ALL" :: rest => read? { r with marks := { r.marks with excluded := true } } rest
  | "SYSTEM" :: rest => read? { r with marks := { r.marks with isSystem := true } } rest
  | word :: rest => if r.binary.isSome then none else read? { r with binary := some word } rest

def dropEndSlashes (path : String) : String :=
  String.ofList (Text.dropWhileEnd (· == '/') path.toList)

def binaryBeside? (e : Engine) (source : String) : Option String := do
  let below ← Text.stripStart? source (dropEndSlashes e.sourceDir)
  if Text.startsWith below "/" then some (dropEndSlashes e.binaryDir ++ below) else none

def outsideTree (source current : String) : String :=
  "not given a binary directory but the given source directory \"" ++ source ++
    "\" is not a subdirectory of \"" ++ current ++
    "\".  When specifying an out-of-tree source a binary directory must be explicitly specified."

def subdirectoryCommand (r : Runner) : List String → Run Verdict
  | [] => return .failed "called with incorrect number of arguments"
  | word :: options => do
    match SubdirectoryRequest.read? {} options with
    | none => return .failed "called with incorrect number of arguments"
    | some request =>
      let e ← get
      let isSystem := (e.scopes.directory? e.snapshot).any fun d =>
        (d.properties["SYSTEM"]?).any ListValue.isOn
      let marks := { request.marks with isSystem := request.marks.isSystem || isSystem }
      let written := if Command.isFullPath word then word else e.sourceDir ++ "/" ++ word
      if !e.platform.isDirectory written then
        return .failed ("given source \"" ++ word ++ "\" which is not an existing directory.")
      else
        let source := Path.full written e.sourceDir
        let binary? := match request.binary with
          | some path =>
            some (if Command.isFullPath path then path else e.binaryDir ++ "/" ++ path)
          | none => binaryBeside? e source
        match binary? with
        | none => return .failed (outsideTree source e.sourceDir)
        | some binary =>
          r.subdirectory source (Path.full binary e.binaryDir) marks
          return .done

end Runner
end CMakeScript
