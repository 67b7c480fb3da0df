import CMakeScript.CommandLine
import CMakeScript.Execution.Start
/-! The program. It collects the files that the run may look at, runs, and shows what was written. -/
namespace CMakeScript

structure Found where
  files : Array (String × String) := #[]
  directories : Array String := #[]
  links : Array String := #[]
  locked : Array String := #[]

namespace Found

def addFile (f : Found) (path : String) : IO Found := do
  try
    let text ← IO.FS.readFile path
    return { f with files := f.files.push (path, text) }
  catch _ => return { f with locked := f.locked.push path }

partial def addDirectory (f : Found) (path : String) : IO Found := do
  let here := (← IO.currentDir) / path
  let mut f := { f with directories := f.directories.push path }
  for entry in ← here.readDir do
    let name := path ++ "/" ++ entry.fileName
    let kind := (← entry.path.symlinkMetadata).type
    if kind == .symlink then f := { f with links := f.links.push name }
    if ← entry.path.isDir then
      if kind != .symlink then f ← f.addDirectory name
      else f := { f with directories := f.directories.push name }
    else f ← f.addFile name
  return f

def tree (f : Found) (base : String) : FileTree :=
  .ofEntries base f.files.toList f.directories.toList f.links.toList f.locked.toList

end Found

def readEnvironment : IO (List (String × String)) := do
  try
    let text ← IO.FS.readFile "/proc/self/environ"
    return (Text.split '\x00' text).filterMap fun entry =>
      (Text.cutAt ['='] entry.toList).map fun (name, value) =>
        (String.ofList name, String.ofList value)
  catch _ => return []

def collect (v : Invocation) (base : String) : IO FileTree := do
  let top := match v.script with
    | some script => Path.parent (Path.full script base)
    | none => Path.full v.sourceDirectory base
  try
    let found ← ({} : Found).addDirectory top
    return found.tree base
  catch _ => return ({} : Found).tree base

def showWritten (w : Written) : IO Unit :=
  match w.stream with
  | .output => IO.print w.text
  | .errors => IO.eprint w.text

def fuel : Nat := 1000000000

def runInvocation (v : Invocation) : IO UInt32 := do
  for flag in v.unknownFlags do
    IO.eprintln ("CMake Warning: ignoring unknown warning flag " ++ flag)
  for entry in Engine.badCacheOptions v.options do
    IO.eprint ("CMake Error: Parse error in command line argument: " ++ entry ++
      "\nShould be: VAR:type=value\n")
  let base := (← IO.currentDir).toString
  let e := Engine.start v.options (← collect v base) (← readEnvironment)
  let r := Runner.ofFuel fuel
  let run := match v.script with
    | some script => r.runScript script
    | none => r.configure v.sourceDirectory v.binaryDirectory
  match run e with
  | .error (_, e) =>
    e.written.forM showWritten
    IO.eprintln "the run ended without an answer"
    return 101
  | .ok (result, e) =>
    e.written.forM showWritten
    match result with
    | .ok code => return (code % 256).toNat.toUInt32
    | .error error =>
      IO.eprintln error.message
      return 1

end CMakeScript

def main (arguments : List String) : IO UInt32 := do
  match CMakeScript.Invocation.read arguments with
  | .ok v => CMakeScript.runInvocation v
  | .error error =>
    IO.eprintln ("error: " ++ error.message)
    return 2
