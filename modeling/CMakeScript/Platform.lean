import CMakeScript.Regex.Basic
/-! What a run asks of the machine that it runs on: the files, the directory that it was started in,
and the compiling of regular expressions. Without a file system of its own a run knows only these
answers, so that whatever is shown of a run holds on every machine. -/
namespace CMakeScript

structure Platform where
  currentDirectory : String := "/"
  isPresent : String → Bool := fun _ => false
  isDirectory : String → Bool := fun _ => false
  isLink : String → Bool := fun _ => false
  read : String → Except String String := fun _ => .error ""
  regex? : String → Option Regex := fun _ => none

namespace Platform

def isFile (p : Platform) (path : String) : Bool := p.isPresent path && !p.isDirectory path

end Platform
end CMakeScript
