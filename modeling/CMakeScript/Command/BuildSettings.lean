import CMakeScript.Engine.Properties
/-! Commands that add to the build settings of the current directory. -/
namespace CMakeScript.Command

def isFullPath (path : String) : Bool := Text.startsWith path "/"

def forwardSlashes (path : String) : String :=
  String.ofList (path.toList.map fun c => if c = '\\' then '/' else c)

def isGenerated (path : String) : Bool := Text.startsWith path "$<"

def appendSetting (kind : ContentKind) (value : String) (e : Engine) : Engine :=
  { e with scopes := e.scopes.appendContent e.snapshot kind value }

def prependSetting (kind : ContentKind) (value : String) (e : Engine) : Engine :=
  if value.isEmpty then e
  else
    let joined := ListValue.join (value :: e.scopes.content e.snapshot kind)
    { e with scopes := e.scopes.setContent e.snapshot kind joined }

def readOrder (default : Bool) : List String → Bool × List String
  | "BEFORE" :: rest => (true, rest)
  | "AFTER" :: rest => (false, rest)
  | words => (default, words)

def isPadding (c : Char) : Bool := c == ' ' || c == '\r'

def includePath (source text : String) : String :=
  let path := forwardSlashes
    (String.ofList (Text.dropWhileEnd isPadding (text.toList.dropWhile isPadding)))
  if ListValue.isOff path || isFullPath path || isGenerated path then path
  else source ++ "/" ++ path

structure Includes where
  paths : List String := []
  systemPaths : List String := []
  deriving DecidableEq, Repr

def Includes.read? (source : String) (inSystem : Bool) : List String → Option Includes
  | [] => some {}
  | "SYSTEM" :: rest => read? source true rest
  | word :: rest => do
    if word.isEmpty then none
    else
      let paths := (ListValue.split word).map (includePath source)
      let more ← read? source inSystem rest
      some ⟨paths ++ more.paths, if inSystem then paths ++ more.systemPaths
        else more.systemPaths⟩

def extendIncludes (front back : String) (m : Properties) : Properties :=
  let m := Properties.append m "INCLUDE_DIRECTORIES" back false
  if front.isEmpty then m
  else
    m.insert "INCLUDE_DIRECTORIES" (ListValue.join
      (ListValue.split front ++ ListValue.split (m.getD "INCLUDE_DIRECTORIES" "")))

def addIncludes (before : Bool) (includes : Includes) (e : Engine) : Engine :=
  let front := if before then ListValue.join includes.paths.reverse else ""
  let back := if before then "" else ListValue.join includes.paths
  let e := prependSetting .includeDirectories front (appendSetting .includeDirectories back e)
  let names := ((e.scopes.directory? e.snapshot).map (·.targetNames)).getD []
  let e := { e with targets := names.foldl (fun targets name =>
    targets.modify name fun t =>
      { t with properties := extendIncludes front back t.properties }) e.targets }
  if includes.systemPaths.isEmpty then e
  else
    let joined := ListValue.join includes.systemPaths
    let extend := fun (m : Properties) =>
      Properties.append m "SYSTEM_INCLUDE_DIRECTORIES" joined false
    { e with scopes := e.scopes.updateDirectory e.snapshot fun d =>
      { d with properties := extend d.properties } }

def includeDirectories (words : List String) : Step Verdict := do
  let e ← get
  let (before, words) := readOrder (e.isOn "CMAKE_INCLUDE_DIRECTORIES_BEFORE") words
  match Includes.read? e.sourceDir false words with
  | none => Step.fail "given empty-string as include directory."
  | some includes =>
    modify (addIncludes before includes)
    Step.done

def linkDirectories (words : List String) : Step Verdict := do
  let e ← get
  let (before, words) := readOrder (e.isOn "CMAKE_LINK_DIRECTORIES_BEFORE") words
  let paths := words.map fun word =>
    let path := forwardSlashes word
    if isFullPath path || isGenerated path then path else Path.full path e.sourceDir
  let joined := ListValue.join paths
  modify (if before then prependSetting .linkDirectories joined
    else appendSetting .linkDirectories joined)
  Step.done

def addSettings (kind : ContentKind) (words : List String) : Step Verdict := do
  modify fun e => words.foldl (fun e word => appendSetting kind word e) e
  Step.done

def isNameStart (c : Char) : Bool := Text.isLetter c || c == '_'

def isNamePart (c : Char) : Bool := Text.isAlphanumeric c || c == '_'

def definitionOf? (flag : String) : Option String := do
  let text ← (Text.stripStart? flag "-D").orElse fun _ => Text.stripStart? flag "/D"
  match text.toList.takeWhile (· != '=') with
  | c :: cs => if isNameStart c && cs.all isNamePart then some text else none
  | [] => none

def addFlag (e : Engine) (flag : String) : Engine :=
  if flag.isEmpty then e
  else
    let e := { e with scopes := e.scopes.updateDirectory e.snapshot fun d =>
      let current := d.properties.getD "DEFINITIONS" ""
      let flags := if current.isEmpty then flag else current ++ " " ++ flag
      { d with properties := d.properties.insert "DEFINITIONS" flags } }
    match definitionOf? flag with
    | some text => appendSetting .compileDefinitions text e
    | none => appendSetting .compileOptions flag e

def addDefinitions (flags : List String) : Step Verdict := do
  modify fun e => flags.foldl addFlag e
  Step.done

end CMakeScript.Command
