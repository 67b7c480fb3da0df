import CMakeScript.Variables
import CMakeScript.Policy.Frames
import CMakeScript.Property
/-! Snapshots: the scopes of a run. A snapshot names its variable frames, policy frames, list file
and directory. Only the snapshot that is current in its directory can be popped, and its parent
becomes current again. -/
namespace CMakeScript

inductive SnapshotKind where
  | base
  | directory
  | functionCall
  | macroCall
  | includeFile
  | inlineFile
  | variableScope
  | policyScope
  | deferCall
  deriving DecidableEq, Repr, Inhabited

inductive ContentKind where
  | includeDirectories
  | compileDefinitions
  | compileOptions
  | linkOptions
  | linkDirectories
  deriving DecidableEq, Repr, Inhabited

namespace ContentKind

def all : List ContentKind :=
  [includeDirectories, compileDefinitions, compileOptions, linkOptions, linkDirectories]

def property : ContentKind → String
  | includeDirectories => "INCLUDE_DIRECTORIES"
  | compileDefinitions => "COMPILE_DEFINITIONS"
  | compileOptions => "COMPILE_OPTIONS"
  | linkOptions => "LINK_OPTIONS"
  | linkDirectories => "LINK_DIRECTORIES"

def ofProperty? (name : String) : Option ContentKind := all.find? (·.property == name)

end ContentKind

structure PerContent (α : Type) where
  includeDirectories : α
  compileDefinitions : α
  compileOptions : α
  linkOptions : α
  linkDirectories : α
  deriving DecidableEq, Repr, Inhabited

namespace PerContent

variable {α β : Type}

def get (p : PerContent α) : ContentKind → α
  | .includeDirectories => p.includeDirectories
  | .compileDefinitions => p.compileDefinitions
  | .compileOptions => p.compileOptions
  | .linkOptions => p.linkOptions
  | .linkDirectories => p.linkDirectories

def ofFn (f : ContentKind → α) : PerContent α :=
  ⟨f .includeDirectories, f .compileDefinitions, f .compileOptions, f .linkOptions,
    f .linkDirectories⟩

def set (p : PerContent α) (kind : ContentKind) (value : α) : PerContent α :=
  match kind with
  | .includeDirectories => { p with includeDirectories := value }
  | .compileDefinitions => { p with compileDefinitions := value }
  | .compileOptions => { p with compileOptions := value }
  | .linkOptions => { p with linkOptions := value }
  | .linkDirectories => { p with linkDirectories := value }

end PerContent

abbrev ContentLog := List (Option String)

namespace ContentLog

def visible (log : ContentLog) (length : Nat) : List String :=
  (((log.take length).reverse.takeWhile Option.isSome).reverse).filterMap id

end ContentLog

structure Directory where
  source : String := ""
  binary : String := ""
  current : Nat := 0
  children : List Nat := []
  properties : Properties := {}
  targetNames : List String := []
  project : String := ""
  contents : PerContent ContentLog := .ofFn fun _ => []
  deriving Inhabited

structure Snapshot where
  kind : SnapshotKind
  /-- A kept snapshot is never dropped from the arena. -/
  keep : Bool
  scopeParent : Nat
  directoryParent : Nat
  directory : Nat
  listFile : Nat
  frame : Nat
  parentFrame : Nat
  rootFrame : Nat
  policies : Nat
  policyRoot : Nat
  policyScope : Nat
  contentLengths : PerContent Nat := .ofFn fun _ => 0
  deriving Repr, Inhabited

inductive ScopeError where
  | invalidSnapshot (index : Nat)
  | snapshotOrder (popped current : Nat)
  deriving DecidableEq, Repr

namespace ScopeError

def message : ScopeError → String
  | invalidSnapshot index => "Snapshot #" ++ toString index ++ " is not part of the state"
  | snapshotOrder popped current =>
    "Snapshot #" ++ toString popped ++ " popped while #" ++ toString current ++
      " is still open"

end ScopeError

structure Scopes where
  snapshots : Arena Snapshot := .empty
  frames : Variables := .empty
  policies : PolicyFrames := .empty
  listFiles : Arena String := .empty
  directories : Arena Directory := .empty
  deriving Inhabited

namespace Scopes

def snapshot (s : Scopes) (id : Nat) : Except ScopeError Snapshot :=
  match s.snapshots.get? id with
  | some snapshot => .ok snapshot
  | none => .error (.invalidSnapshot id)

def modifySnapshot (s : Scopes) (id : Nat) (f : Snapshot → Snapshot) : Scopes :=
  { s with snapshots := s.snapshots.modify id f }

def modifyDirectory (s : Scopes) (id : Nat) (f : Directory → Directory) : Scopes :=
  { s with directories := s.directories.modify id f }

def define (s : Scopes) (id : Nat) (name value : String) : Scopes :=
  match s.snapshots.get? id with
  | some here => { s with frames := s.frames.define here.frame name value }
  | none => s

def undefine (s : Scopes) (id : Nat) (name : String) : Scopes :=
  match s.snapshots.get? id with
  | some here => { s with frames := s.frames.unset here.frame name }
  | none => s

def definition? (s : Scopes) (id : Nat) (name : String) : Option String := do
  let here ← s.snapshots.get? id
  s.frames.lookup here.frame here.rootFrame name

def visibleNames (s : Scopes) (id : Nat) : List String :=
  match s.snapshots.get? id with
  | some here => s.frames.visibleNames here.frame here.rootFrame
  | none => []

def defaults : List (String × String) :=
  [("UNIX", "1"), ("CMAKE_HOST_UNIX", "1"), ("CMAKE_HOST_LINUX", "1"),
    ("CMAKE_MAJOR_VERSION", Text.decimal Version.engine.major),
    ("CMAKE_MINOR_VERSION", Text.decimal Version.engine.minor),
    ("CMAKE_PATCH_VERSION", Text.decimal Version.engine.patch),
    ("CMAKE_VERSION", Version.engine.render),
    ("CMAKE_FILES_DIRECTORY", "/CMakeFiles")]

def defineDefaults (s : Scopes) (id : Nat) : Scopes :=
  defaults.foldl (fun s (name, value) => s.define id name value) s

def createBase (s : Scopes) : Scopes × Nat :=
  let (directories, directory) := s.directories.push 0 {}
  let (listFiles, listFile) := s.listFiles.push 0 ""
  let (frames, frame) := s.frames.pushFrame 0
  let (policies, policy) := s.policies.push 0 {}
  let snapshot : Snapshot :=
    { kind := .base, keep := true, scopeParent := 0, directoryParent := 0, directory, listFile,
      frame := frame, parentFrame := 0, rootFrame := 0, policies := policy,
      policyRoot := policy, policyScope := policy }
  let (snapshots, id) := s.snapshots.push 0 snapshot
  let s : Scopes := { snapshots, frames, policies, listFiles, directories }
  ((s.modifyDirectory directory fun d => { d with current := id }).defineDefaults id, id)

def createDirectory (s : Scopes) (origin : Nat) : Except ScopeError (Scopes × Nat) := do
  let parent ← s.snapshot origin
  let closure := s.frames.closure parent.frame parent.rootFrame
  let inherited : PerContent (List String) := match s.directories.get? parent.directory with
    | some d => .ofFn fun kind =>
      ContentLog.visible (d.contents.get kind) (parent.contentLengths.get kind)
    | none => .ofFn fun _ => []
  let (directories, directory) := s.directories.push parent.directory {}
  let (listFiles, listFile) := s.listFiles.push parent.listFile ""
  let (frames, frame) := s.frames.pushFrame parent.frame
  let (policies, policy) := s.policies.push parent.policies {}
  let snapshot : Snapshot :=
    { kind := .directory, keep := true, scopeParent := origin, directoryParent := origin,
      directory, listFile, frame := frame, parentFrame := parent.frame,
      rootFrame := parent.frame, policies := policy, policyRoot := policy,
      policyScope := policy,
      contentLengths := .ofFn fun kind => (inherited.get kind).length }
  let (snapshots, id) := s.snapshots.push origin snapshot
  let s : Scopes :=
    { snapshots, frames := frames.replace frame closure, policies, listFiles, directories }
  let s := s.modifyDirectory directory fun d =>
    { d with current := id, contents := .ofFn fun kind => (inherited.get kind).map some }
  let s := s.modifyDirectory parent.directory fun d => { d with children := d.children ++ [id] }
  .ok (s.defineDefaults id, id)

/-- Opens a scope inside the directory of `origin`, with a list file of its own when a path is
given and with a variable frame of its own when `fresh` is set. -/
def createNested (s : Scopes) (origin : Nat) (kind : SnapshotKind) (keep : Bool)
    (file : Option String) (fresh : Bool) : Except ScopeError (Scopes × Nat) := do
  let parent ← s.snapshot origin
  let (listFiles, listFile) := match file with
    | some path => s.listFiles.push parent.listFile path
    | none => (s.listFiles, parent.listFile)
  let inner : Snapshot :=
    { parent with kind := kind, keep := keep, policyScope := parent.policies, listFile := listFile }
  let (frames, inner) :=
    if fresh then
      let (frames, frame) := s.frames.pushFrame parent.frame
      (frames, { inner with
        scopeParent := origin, parentFrame := parent.frame, frame := frame })
    else (s.frames, inner)
  let (snapshots, id) := s.snapshots.push origin inner
  let s : Scopes := { s with snapshots, frames, listFiles }
  .ok (s.modifyDirectory parent.directory fun d => { d with current := id }, id)

def createFunctionCall (s : Scopes) (origin : Nat) (file : String) :=
  s.createNested origin .functionCall false (some file) true

def createMacroCall (s : Scopes) (origin : Nat) (file : String) :=
  s.createNested origin .macroCall false (some file) false

def createIncludeFile (s : Scopes) (origin : Nat) (file : String) :=
  s.createNested origin .includeFile true (some file) false

def createInlineFile (s : Scopes) (origin : Nat) (file : String) :=
  s.createNested origin .inlineFile true (some file) false

def createDeferCall (s : Scopes) (origin : Nat) (file : String) :=
  s.createNested origin .deferCall false (some file) false

def createVariableScope (s : Scopes) (origin : Nat) :=
  s.createNested origin .variableScope false none true

def createPolicyScope (s : Scopes) (origin : Nat) :=
  s.createNested origin .policyScope false none false

/-- Drops the snapshot and what only it uses, as far as they are the last of their arenas. -/
def reclaim (s : Scopes) (id : Nat) (inner outer : Snapshot) : Scopes :=
  if inner.keep || !s.snapshots.isLast id then s
  else
    let frames :=
      if inner.frame != outer.frame && s.frames.isLast inner.frame then
        (s.frames.pop inner.frame).1
      else s.frames
    let listFiles :=
      if inner.listFile != outer.listFile && s.listFiles.isLast inner.listFile then
        (s.listFiles.pop inner.listFile).1
      else s.listFiles
    { s with frames, listFiles, snapshots := (s.snapshots.pop id).1 }

def pop (s : Scopes) (id : Nat) : Except ScopeError (Scopes × Nat) := do
  let inner ← s.snapshot id
  let current := (s.directories.get? inner.directory).map (·.current)
  if current ≠ some id then
    .error (.snapshotOrder id (current.getD 0))
  else
    let parent := s.snapshots.parent id
    let outer ← s.snapshot parent
    let lengths : PerContent Nat := match s.directories.get? outer.directory with
      | some d => .ofFn fun kind => (d.contents.get kind).length
      | none => .ofFn fun _ => 0
    let s := s.modifySnapshot parent fun p => { p with contentLengths := lengths }
    let s := s.modifyDirectory outer.directory fun d => { d with current := parent }
    .ok (s.reclaim id inner outer, parent)

def directory? (s : Scopes) (id : Nat) : Option Directory := do
  let here ← s.snapshots.get? id
  s.directories.get? here.directory

def updateDirectory (s : Scopes) (id : Nat) (f : Directory → Directory) : Scopes :=
  match s.snapshots.get? id with
  | some here => s.modifyDirectory here.directory f
  | none => s

def parentDirectory? (s : Scopes) (id : Nat) : Option Nat := do
  let here ← s.snapshots.get? id
  if here.directoryParent = 0 then none
  else (s.directory? here.directoryParent).map (·.current)

def raise? (s : Scopes) (id : Nat) (name : String) (value : Option String) : Option Scopes := do
  let here ← s.snapshots.get? id
  if here.scopeParent = here.directoryParent then
    let above ← s.parentDirectory? id
    match value with
    | some v => some (s.define above name v)
    | none => some (s.undefine above name)
  else
    let frames := s.frames.localize here.frame here.rootFrame name
    some { s with frames := frames.assign here.parentFrame name value }

def policy (s : Scopes) (id : Nat) (p : Policy) : PolicyStatus :=
  ((s.snapshots.get? id).bind fun here => PolicyFrames.setting? s.policies here.policies p).getD
    .warn

def setPolicy (s : Scopes) (id : Nat) (p : Policy) (status : PolicyStatus) : Scopes :=
  match s.snapshots.get? id with
  | some here => { s with policies := PolicyFrames.write s.policies here.policies p status }
  | none => s

def recordPolicies (s : Scopes) (id : Nat) : PolicySettings :=
  match s.snapshots.get? id with
  | some here => PolicyFrames.flatten s.policies here.policies
  | none => {}

def pushPolicy (s : Scopes) (id : Nat) (settings : PolicySettings) (weak : Bool) :
    Except ScopeError Scopes := do
  let here ← s.snapshot id
  let (policies, frame) := s.policies.push here.policies ⟨settings, weak⟩
  .ok ({ s with policies }.modifySnapshot id fun p => { p with policies := frame })

def popPolicy (s : Scopes) (id : Nat) : Except ScopeError (Option Scopes) := do
  let here ← s.snapshot id
  if here.policies = here.policyScope then .ok none
  else
    let (policies, up) := s.policies.pop here.policies
    .ok (some ({ s with policies }.modifySnapshot id fun p => { p with policies := up }))

def atPolicyBoundary (s : Scopes) (id : Nat) : Bool :=
  match s.snapshots.get? id with
  | some here => here.policies == here.policyScope
  | none => true

def markPolicyScope (s : Scopes) (id : Nat) : Except ScopeError Scopes := do
  let _ ← s.snapshot id
  .ok (s.modifySnapshot id fun p => { p with policyScope := p.policies })

def setListFile (s : Scopes) (id : Nat) (path : String) : Scopes :=
  match s.snapshots.get? id with
  | some here => { s with listFiles := s.listFiles.set here.listFile path }
  | none => s

def listFile (s : Scopes) (id : Nat) : String :=
  ((s.snapshots.get? id).bind fun here => s.listFiles.get? here.listFile).getD ""

def listFileStack (s : Scopes) (id : Nat) : List String :=
  match s.snapshots.get? id with
  | some here =>
    (((s.listFiles.ancestors here.listFile).map Prod.snd).filter (!·.isEmpty)).reverse
  | none => []

def setLocations (s : Scopes) (id : Nat) (source binary : String) : Scopes :=
  let s := s.updateDirectory id fun d => { d with source, binary }
  (s.define id "CMAKE_CURRENT_SOURCE_DIR" source).define id "CMAKE_CURRENT_BINARY_DIR" binary

def content (s : Scopes) (id : Nat) (kind : ContentKind) : List String :=
  match s.snapshots.get? id with
  | some here =>
    match s.directories.get? here.directory with
    | some d => ContentLog.visible (d.contents.get kind) (here.contentLengths.get kind)
    | none => []
  | none => []

def logContent (s : Scopes) (id : Nat) (kind : ContentKind) (entries : ContentLog) : Scopes :=
  match s.snapshots.get? id with
  | some here =>
    match s.directories.get? here.directory with
    | some d =>
      let log := d.contents.get kind ++ entries
      let s := s.modifyDirectory here.directory fun d =>
        { d with contents := d.contents.set kind log }
      s.modifySnapshot id fun p =>
        { p with contentLengths := p.contentLengths.set kind log.length }
    | none => s
  | none => s

def appendContent (s : Scopes) (id : Nat) (kind : ContentKind) (value : String) : Scopes :=
  if value.isEmpty then s else s.logContent id kind [some value]

def setContent (s : Scopes) (id : Nat) (kind : ContentKind) (value : String) : Scopes :=
  s.logContent id kind (if value.isEmpty then [none] else [none, some value])

def clearContent (s : Scopes) (id : Nat) (kind : ContentKind) : Scopes :=
  s.logContent id kind [none]

end Scopes
end CMakeScript
