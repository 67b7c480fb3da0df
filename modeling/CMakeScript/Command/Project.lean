import CMakeScript.Engine.Policies
/-! The command that names the project of the current directory. -/
namespace CMakeScript.Command

inductive ProjectField where
  | version
  | description
  | homepage
  | languages
  deriving DecidableEq, Repr

namespace ProjectField

def ofKeyword? : String → Option ProjectField
  | "VERSION" => some version
  | "DESCRIPTION" => some description
  | "HOMEPAGE_URL" => some homepage
  | "LANGUAGES" => some languages
  | _ => none

end ProjectField

structure ProjectRequest where
  field : ProjectField := .languages
  version : Option String := none
  description : Option String := none
  homepage : Option String := none
  deriving DecidableEq, Repr

namespace ProjectRequest

def twice (keyword : String) : Except String ProjectRequest :=
  .error (keyword ++ " may be specified at most once.")

def take (r : ProjectRequest) (word : String) : Except String ProjectRequest :=
  match r.field with
  | .version => if r.version.isSome then twice "VERSION" else .ok { r with version := some word }
  | .description =>
    if r.description.isSome then twice "DESCRIPTION"
    else .ok { r with description := some word }
  | .homepage =>
    if r.homepage.isSome then twice "HOMEPAGE_URL" else .ok { r with homepage := some word }
  | .languages => .ok r

def read (r : ProjectRequest) : List String → Except String ProjectRequest
  | [] => .ok r
  | word :: rest =>
    match ProjectField.ofKeyword? word with
    | some field => read { r with field := field } rest
    | none =>
      match r.take word with
      | .ok r => read r rest
      | .error reason => .error reason

end ProjectRequest

def defineAll (entries : List (String × String)) : Step Unit :=
  modify fun e => entries.foldl (fun e (name, value) => e.define name value) e

def cacheAll (entries : List (String × String)) : Step Unit :=
  modify fun e => entries.foldl (fun e (name, value) =>
    e.cacheDefine name value "Value Computed by CMake" .static true) e

def placeProject (name : String) (isTop : Bool) : Step Unit := do
  let e ← get
  let source := e.sourceDir
  let binary := e.binaryDir
  let top := Engine.switch isTop
  modify fun e => { e with
    scopes := e.scopes.updateDirectory e.snapshot fun d => { d with project := name } }
  cacheAll [(name ++ "_BINARY_DIR", binary), (name ++ "_SOURCE_DIR", source),
    (name ++ "_IS_TOP_LEVEL", top)]
  defineAll [("PROJECT_NAME", name), ("PROJECT_SOURCE_DIR", source),
    ("PROJECT_BINARY_DIR", binary), (name ++ "_SOURCE_DIR", source),
    (name ++ "_BINARY_DIR", binary), ("PROJECT_IS_TOP_LEVEL", top),
    (name ++ "_IS_TOP_LEVEL", top)]
  if isTop then Step.define "CMAKE_PROJECT_NAME" name

def versionParts? : Option String → Except String (List String)
  | none => .ok []
  | some text =>
    let parts := Text.split '.' text
    if parts.length ≤ 4 ∧ parts.all fun p => !p.isEmpty && p.toList.all Text.isDigit then
      .ok parts
    else .error ("VERSION \"" ++ text ++ "\" format invalid.")

def descriptionEntries (r : ProjectRequest) (parts : List String) (name : String) :
    List (String × String) :=
  let part := fun (i : Nat) => parts.getD i ""
  [(name ++ "_VERSION", Text.join "." parts), (name ++ "_VERSION_MAJOR", part 0),
    (name ++ "_VERSION_MINOR", part 1), (name ++ "_VERSION_PATCH", part 2),
    (name ++ "_VERSION_TWEAK", part 3), (name ++ "_DESCRIPTION", r.description.getD ""),
    (name ++ "_HOMEPAGE_URL", r.homepage.getD "")]

def project : List String → Step Verdict
  | [] => Step.fail "PROJECT called with incorrect number of arguments"
  | name :: words => do
    if name.isEmpty then Step.fail "PROJECT called with an empty project name"
    else match ProjectRequest.read {} words with
      | .error reason => Step.fail reason
      | .ok r =>
        let e ← get
        let isTop := (e.scopes.parentDirectory? e.snapshot).isNone
        placeProject name isTop
        match versionParts? r.version with
        | .error reason => Step.fail reason
        | .ok parts =>
          defineAll (descriptionEntries r parts "PROJECT" ++ descriptionEntries r parts name)
          if isTop then
            defineAll [("CMAKE_PROJECT_VERSION", Text.join "." parts),
              ("CMAKE_PROJECT_DESCRIPTION", r.description.getD ""),
              ("CMAKE_PROJECT_HOMEPAGE_URL", r.homepage.getD "")]
          Step.done

end CMakeScript.Command
