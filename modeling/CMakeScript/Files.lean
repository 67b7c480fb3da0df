import CMakeScript.Path
import CMakeScript.Platform
import CMakeScript.Regex.Compile
import Std.Data.TreeMap
/-! Machines whose files are given as a map. Paths are looked up in their normal form below a base
directory. -/
namespace CMakeScript

structure FileTree where
  base : String := "/"
  files : Std.TreeMap String String := {}
  directories : List String := []
  links : List String := []
  locked : List String := []
  deriving Inhabited

namespace FileTree

def ofEntries (base : String) (files : List (String × String))
    (directories links locked : List String) : FileTree :=
  let normal := fun path => Path.full path base
  { base,
    files := files.foldl (fun m (path, text) => m.insert (normal path) text) {},
    directories := directories.map normal, links := links.map normal,
    locked := locked.map normal }

def normal (t : FileTree) (path : String) : String := Path.full path t.base

def entries (t : FileTree) : List String := t.files.keys ++ t.directories ++ t.locked

def isAbove (path entry : String) : Bool := Text.startsWith entry (path ++ "/")

def isDirectory (t : FileTree) (path : String) : Bool :=
  let p := t.normal path
  !path.isEmpty && (p == "/" || t.directories.contains p || t.entries.any (isAbove p))

def isPresent (t : FileTree) (path : String) : Bool :=
  let p := t.normal path
  !path.isEmpty && (t.isDirectory path || t.files.contains p || t.locked.contains p)

def isLink (t : FileTree) (path : String) : Bool :=
  !path.isEmpty && t.links.contains (t.normal path)

def read (t : FileTree) (path : String) : Except String String :=
  let p := t.normal path
  if path.isEmpty then .error "no such file"
  else if t.locked.contains p then .error "permission denied"
  else match t.files[p]? with
    | some text => .ok text
    | none => .error "no such file"

def platform (t : FileTree) : Platform :=
  { currentDirectory := t.base, isPresent := t.isPresent, isDirectory := t.isDirectory,
    isLink := t.isLink, read := t.read, regex? := Regex.compile? }

instance : Coe FileTree Platform := ⟨platform⟩

end FileTree
end CMakeScript
