import CMakeScript.Engine.Policies
/-! A command of old times, which names the system that a build runs on. -/
namespace CMakeScript.Command

def isSeparator (c : Char) : Bool := c == '/' || c == '(' || c == ')'

def buildNameOf (text : String) : String :=
  String.ofList (text.toList.map fun c => if isSeparator c then '_' else c)

def hostName : String := "linux-x86_64"

def compilerName (path : String) : String :=
  String.ofList (path.toList.reverse.takeWhile fun c => c != '/' && c != '\\').reverse

def cacheBuildName (name text : String) : Step Unit :=
  modify (·.cacheDefine name (buildNameOf text) "Name of build." .string false)

def buildName : List String → Step Verdict
  | [] => Step.fail "called with incorrect number of arguments"
  | name :: _ => do
    let e ← get
    match e.definition? name with
    | some value => if value.toList.any isSeparator then cacheBuildName name value
    | none =>
      let system := if e.isDefined "UNIX" then hostName else "WinNT"
      cacheBuildName name (system ++ "-" ++ compilerName (e.value "CMAKE_CXX_COMPILER"))
    Step.done

end CMakeScript.Command
