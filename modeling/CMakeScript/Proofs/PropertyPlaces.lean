import CMakeScript.Command.Property
import CMakeScript.Command.Target
import CMakeScript.Execution.Start
import CMakeScript.Proofs.CurrentScope
/-! The same change of a property in several places. What it makes of a value is the same for the
run, for a directory and for a target. A cache entry takes raw text as an element of a list, and
keeps an empty text where the others lose the value. -/
namespace CMakeScript

/-! What an edit makes of a value -/

namespace PropertyEdit

variable {m : Properties} {name : String}

def onto : PropertyEdit → Option String → Option String
  | assign value, _ => some value
  | append value raw, before =>
    if value.isEmpty then before
    else
      let current := before.getD ""
      some (current ++ (if current.isEmpty || raw then "" else ";") ++ value)
  | remove, _ => none

def inCache : PropertyEdit → PropertyEdit
  | assign value => assign value
  | append value _ => append value false
  | remove => assign ""

def DiffersInCache (before : Option String) : PropertyEdit → Prop
  | assign _ => False
  | append value raw => raw = true ∧ value ≠ "" ∧ before.getD "" ≠ ""
  | remove => True

theorem applyFinds (edit : PropertyEdit) (m : Properties) (name : String) :
    (edit.apply m name)[name]? = edit.onto m[name]? := by
  cases edit with
  | assign value => simp [apply, onto]
  | append value raw =>
    by_cases none : value.isEmpty
    · simp [apply, Properties.append, onto, none]
    · simp [apply, Properties.append, onto, none, Std.TreeMap.getD_eq_getD_getElem?]
  | remove => simp [apply, onto]

theorem inCacheAgrees (edit : PropertyEdit) (before : Option String) :
    edit.inCache.onto before = edit.onto before ↔ ¬edit.DiffersInCache before := by
  cases edit with
  | assign value => simp [inCache, DiffersInCache]
  | append value raw =>
    simp only [inCache, onto, DiffersInCache, Bool.or_false]
    cases raw <;> by_cases none : value = "" <;> by_cases first : before.getD "" = "" <;>
      simp [none, first]
  | remove => simp [inCache, onto, DiffersInCache]

theorem applyToCacheEdits {cache : Cache} {entry : String} {x : CacheEntry}
    (found : cache[entry]? = some x) (free : name ≠ "TYPE" ∧ name ≠ "VALUE")
    (edit : PropertyEdit) : edit.applyToCache cache entry name =
      cache.insert entry { x with properties := edit.inCache.apply x.properties name } := by
  cases edit <;>
    simp [applyToCache, Cache.setProperty?, Cache.editEntry, found, free, inCache, apply]

end PropertyEdit

/-! The words of a change -/

inductive PropertyPlace where
  | global
  | directory (path : Option String)
  | target (name : String)
  | entry (name : String)
  deriving DecidableEq, Repr

namespace PropertyPlace

def scope : PropertyPlace → PropertyScope
  | global => .global
  | directory _ => .directory
  | target _ => .target
  | entry _ => .cache

def keyword : PropertyPlace → String
  | global => "GLOBAL"
  | directory _ => "DIRECTORY"
  | target _ => "TARGET"
  | entry _ => "CACHE"

def name? : PropertyPlace → Option String
  | global => none
  | directory path => path
  | target name => some name
  | entry name => some name

def arriving : PropertyPlace → PropertyEdit → PropertyEdit
  | entry _, edit => edit.inCache
  | _, edit => edit

theorem arrivingAgrees (place : PropertyPlace) (edit : PropertyEdit) (before : Option String) :
    (place.arriving edit).onto before = edit.onto before ↔
      ¬(place.scope = .cache ∧ edit.DiffersInCache before) := by
  cases place with
  | entry entry => simp [arriving, scope, edit.inCacheAgrees]
  | _ => simp [arriving, scope]

end PropertyPlace

structure PropertyChange where
  property : String
  append : Option Bool
  values : List String

namespace PropertyChange

def form : Option Bool → List String
  | none => []
  | some false => ["APPEND"]
  | some true => ["APPEND_STRING"]

def words (change : PropertyChange) (place : PropertyPlace) : List String :=
  place.keyword :: (place.name?.toList ++ (form change.append ++
    "PROPERTY" :: change.property :: change.values))

def edit (change : PropertyChange) : PropertyEdit :=
  match change.append with
  | some raw => .append (ListValue.join change.values) raw
  | none => if change.values.isEmpty then .remove else .assign (ListValue.join change.values)

end PropertyChange

namespace Command

def changeWords : List String := ["PROPERTY", "APPEND", "APPEND_STRING"]

def questionWords : List String := ["PROPERTY", "BRIEF_DOCS", "FULL_DOCS", "SET", "DEFINED"]

namespace SetPropertyRequest

theorem readOther {r : SetPropertyRequest} {word : String} (other : word ∉ changeWords)
    (rest : List String) : r.read (word :: rest) =
      match r.part with
      | .name => read { r with names := word :: r.names } rest
      | .property => read { r with property := word, part := .value } rest
      | .value => read { r with values := word :: r.values } rest
      | .nothing => .error (invalidArgument word) := by
  simp only [changeWords, List.mem_cons, List.not_mem_nil, or_false, not_or] at other
  cases same : r.part <;> simp [read, other, same]

theorem readValues {r : SetPropertyRequest} (last : r.part = .value) {values : List String}
    (others : ∀ value ∈ values, value ∉ changeWords) :
    r.read values = .ok { r with values := values.reverse ++ r.values } := by
  induction values generalizing r with
  | nil => simp [read]
  | cons value values ih =>
    obtain ⟨other, others⟩ := List.forall_mem_cons.mp others
    rw [readOther other, last]
    exact (ih rfl others).trans (by simp)

def ofChange (change : PropertyChange) (place : PropertyPlace) : SetPropertyRequest where
  part := .value
  names := place.name?.toList
  property := change.property
  values := change.values.reverse
  append := change.append

theorem readChange {change : PropertyChange} {place : PropertyPlace}
    (named : ∀ name ∈ place.name?, name ∉ changeWords) (property : change.property ∉ changeWords)
    (others : ∀ value ∈ change.values, value ∉ changeWords) :
    read {} (place.name?.toList ++ (PropertyChange.form change.append ++
      "PROPERTY" :: change.property :: change.values)) = .ok (ofChange change place) := by
  have behind (r : SetPropertyRequest) (empty : r.values = []) :
      r.read ("PROPERTY" :: change.property :: change.values) =
        .ok { r with part := .value, property := change.property,
                     values := change.values.reverse } := by
    rw [read, readOther property]
    exact (readValues rfl others).trans (by simp [empty])
  have formed (r : SetPropertyRequest) (empty : r.values = []) (plain : r.append = none) :
      r.read (PropertyChange.form change.append ++ "PROPERTY" :: change.property :: change.values) =
        .ok { r with part := .value, property := change.property,
                     values := change.values.reverse, append := change.append } := by
    match same : change.append with
    | none => exact (behind r empty).trans (by rw [plain])
    | some false | some true =>
      rw [PropertyChange.form, List.singleton_append, read]
      exact behind _ empty
  match same : place.name? with
  | none => exact (formed {} rfl rfl).trans (by simp [ofChange, same])
  | some name =>
    rw [Option.toList_some, List.singleton_append, readOther (named name same)]
    exact (formed _ rfl rfl).trans (by simp [ofChange, same])

theorem editOfChange (change : PropertyChange) (place : PropertyPlace) :
    (ofChange change place).edit = change.edit := by
  cases form : change.append <;>
    simp [edit, value, ofChange, PropertyChange.edit, form]

end SetPropertyRequest

theorem namesSorted (name : Option String) : NameSet.sorted name.toList = name.toList := by
  cases name <;> rfl

theorem namesOfChange (change : PropertyChange) (place : PropertyPlace) :
    NameSet.sorted (SetPropertyRequest.ofChange change place).names = place.name?.toList :=
  namesSorted place.name?

theorem settableKeyword (place : PropertyPlace) :
    settableScope? place.keyword = some place.scope := by cases place <;> rfl

theorem setPropertyApplies {change : PropertyChange} {place : PropertyPlace}
    (named : ∀ name ∈ place.name?, name ∉ changeWords) (property : change.property ∉ changeWords)
    (some : change.property ≠ "") (others : ∀ value ∈ change.values, value ∉ changeWords) :
    setProperty (change.words place) =
      applyRequest (.ofChange change place) place.scope := by
  rw [PropertyChange.words, setProperty, settableKeyword,
    SetPropertyRequest.readChange named property others]
  simp [SetPropertyRequest.ofChange, some]

end Command

structure Ordinary (name : String) : Prop where
  given : name ≠ "" ∧ name ∉ Command.changeWords ∧ name ∉ Command.questionWords
  run : name ∉ ["CACHE_VARIABLES", "COMMANDS", "MACROS"]
  directory : name ∉ ["SOURCE_DIR", "BINARY_DIR", "PARENT_DIRECTORY", "LISTFILE_STACK", "VARIABLES",
    "MACROS", "SUBDIRECTORIES", "BUILDSYSTEM_TARGETS"]
  content : ContentKind.ofProperty? name = none
  target : Target.isReadOnly name = false
  cache : name ∉ ["TYPE", "VALUE", "ADVANCED"]

theorem Ordinary.ofEntry {name : String} (ordinary : Ordinary name) :
    name ≠ "TYPE" ∧ name ≠ "VALUE" ∧ name ≠ "ADVANCED" := by simpa using ordinary.cache

namespace Targets

variable {r : Targets} {name : String} {t : Target}

theorem getReal (real : r.isAlias name = false) (there : r.targets[name]? = some t) :
    r.get? name = some t := by
  rw [get?, resolve, Std.TreeMap.getD_eq_fallback_of_contains_eq_false real, there]

theorem modifyReal (real : r.isAlias name = false) (there : r.targets[name]? = some t)
    (f : Target → Target) :
    r.modify name f = { r with targets := r.targets.insert name (f t) } := by
  rw [modify, getReal real there, resolve, Std.TreeMap.getD_eq_fallback_of_contains_eq_false real]

theorem containsThere (there : r.targets[name]? = some t) : r.contains name = true := by
  rw [contains, Std.TreeMap.contains_eq_isSome_getElem?, there]
  rfl

end Targets

/-! Where a value is held -/

theorem Scopes.directoryUpdated {s : Scopes} {id : Nat} {d : Directory}
    (there : s.directory? id = some d) (f : Directory → Directory) :
    (s.updateDirectory id f).directory? id = some (f d) := by
  obtain ⟨here, found, held⟩ := Option.bind_eq_some_iff.mp there
  simp [updateDirectory, directory?, found, modifyDirectory, Arena.getModify, held]

theorem Scopes.directoriesUpdated {α : Type} (s : Scopes) (id : Nat) {f : Directory → Directory}
    {g : Directory → α} (kept : ∀ d, g (f d) = g d) (other : Nat) :
    ((s.updateDirectory id f).directory? other).map g = (s.directory? other).map g := by
  unfold updateDirectory
  split
  case h_2 => rfl
  case h_1 here found =>
    cases there : s.snapshots.get? other with
    | none => simp [directory?, modifyDirectory, there]
    | some at' =>
      simp only [directory?, modifyDirectory, there, Arena.getModify]
      by_cases same : at'.directory = here.directory
      · simp [same, kept, Function.comp_def]
      · simp [same]

namespace Engine

variable {e : Engine}

theorem findDirectoryUpdated (e : Engine) (id : Nat) {f : Directory → Directory}
    (kept : ∀ d, (f d).source = d.source ∧ (f d).current = d.current) (path : Option String) :
    findDirectory? { e with scopes := e.scopes.updateDirectory id f } path =
      e.findDirectory? path := by
  have found (e : Engine) (path : String) : e.directoryAt? path =
      e.runs.toList.findSome? fun run =>
        ((e.scopes.directory? run.snapshot).map fun d => (d.source, d.current)).bind fun d =>
          if d.1 = path then some d.2 else none := by
    unfold directoryAt?
    congr 1
    funext run
    cases e.scopes.directory? run.snapshot <;> rfl
  have source (e : Engine) :
      e.sourceDir = ((e.scopes.directory? e.snapshot).map (·.source)).getD "" := rfl
  have here : snapshot { e with scopes := e.scopes.updateDirectory id f } = e.snapshot := rfl
  have places (other : Nat) :
      ((e.scopes.updateDirectory id f).directory? other).map (fun d => (d.source, d.current)) =
        (e.scopes.directory? other).map fun d => (d.source, d.current) :=
    e.scopes.directoriesUpdated id (fun d => Prod.ext (kept d).1 (kept d).2) other
  have sources (other : Nat) :
      ((e.scopes.updateDirectory id f).directory? other).map (·.source) =
        (e.scopes.directory? other).map (·.source) :=
    e.scopes.directoriesUpdated id (fun d => (kept d).1) other
  cases path with
  | none => rfl
  | some path => simp only [findDirectory?, found, source, here, places, sources]

/-- The place is there, may be changed, and holds the value of a property itself. -/
def Holds (e : Engine) (name : String) (value : Option String) : PropertyPlace → Prop
  | .global => e.globals[name]? = value
  | .directory path => ∃ id d, e.findDirectory? path = some id ∧
    e.scopes.directory? id = some d ∧ d.properties[name]? = value
  | .target target => e.targets.isAlias target = false ∧
    ∃ t, e.targets.targets[target]? = some t ∧ t.properties[name]? = value
  | .entry entry => ∃ x, e.cache[entry]? = some x ∧ x.properties[name]? = value

def above? (e : Engine) (name : String) : PropertyPlace → Option String
  | .directory path =>
    if e.declarations.isInherited .directory name then
      (e.findDirectory? path).bind fun id =>
        match e.scopes.parentDirectory? id with
        | some above => e.propertyWithin name e.scopes.snapshots.size above
        | none => e.globalProperty? name
    else none
  | .target target =>
    if e.declarations.isInherited .target name then
      ((e.targets.get? target).bind fun t => e.directoryAt? t.directory).bind fun id =>
        e.directoryProperty? id name
    else none
  | _ => none

theorem aboveUninherited {name : String} {place : PropertyPlace}
    (own : e.declarations.isInherited place.scope name = false) : e.above? name place = none := by
  cases place with
  | directory | target => exact if_neg (ne_true_of_eq_false own)
  | _ => rfl

/-! A change -/

variable {change : PropertyChange} {place : PropertyPlace} {before : Option String}

/-- A change in one place leaves what the others hold, and what is declared. -/
structure KeepsOthers (e e' : Engine) (name : String) (place : PropertyPlace) : Prop where
  held : ∀ other, other.scope ≠ place.scope →
    ∀ value, e.Holds name value other → e'.Holds name value other
  declarations : e'.declarations = e.declarations

theorem directoryMade {name : String} {path : Option String} {id : Nat} {d : Directory}
    (ordinary : Ordinary name) (found : e.findDirectory? path = some id)
    (there : e.scopes.directory? id = some d) (edit : PropertyEdit) :
    (e.editDirectory id name edit).Holds name (edit.onto d.properties[name]?) (.directory path) ∧
      e.KeepsOthers (e.editDirectory id name edit) name (.directory path) := by
  have kept := findDirectoryUpdated e id
    (f := fun d => { d with properties := edit.apply d.properties name }) (fun d => ⟨rfl, rfl⟩) path
  rw [editDirectory, ordinary.content]
  refine ⟨⟨id, _, kept.trans found, Scopes.directoryUpdated there _,
    PropertyEdit.applyFinds ..⟩, ⟨?_, rfl⟩⟩
  rintro (_ | _ | _ | _) other value held
  case directory => exact absurd rfl other
  all_goals exact held

theorem targetMade {name target : String} {t : Target} (real : e.targets.isAlias target = false)
    (there : e.targets.targets[target]? = some t) (edit : PropertyEdit) :
    let e' := { e with targets := e.targets.modify target fun t =>
      { t with properties := edit.apply t.properties name } }
    e'.Holds name (edit.onto t.properties[name]?) (.target target) ∧
      e.KeepsOthers e' name (.target target) := by
  refine ⟨?_, ⟨?_, rfl⟩⟩
  · rw [Holds, Targets.modifyReal real there]
    exact ⟨real, _, Std.TreeMap.getElem?_insert_self, PropertyEdit.applyFinds ..⟩
  · rintro (_ | _ | _ | _) other value held
    case target => exact absurd rfl other
    all_goals exact held

theorem entryMade {name entry : String} {x : CacheEntry} (there : e.cache[entry]? = some x)
    (ordinary : Ordinary name) (edit : PropertyEdit) :
    let e' := { e with cache := edit.applyToCache e.cache entry name }
    e'.Holds name (edit.inCache.onto x.properties[name]?) (.entry entry) ∧
      e.KeepsOthers e' name (.entry entry) := by
  refine ⟨?_, ⟨?_, rfl⟩⟩
  · rw [Holds, PropertyEdit.applyToCacheEdits there ⟨ordinary.ofEntry.1, ordinary.ofEntry.2.1⟩]
    exact ⟨_, Std.TreeMap.getElem?_insert_self, PropertyEdit.applyFinds ..⟩
  · rintro (_ | _ | _ | _) other value held
    case entry => exact absurd rfl other
    all_goals exact held

theorem directoryRequest {path : Option String} {id : Nat}
    (found : e.findDirectory? path = some id) (change : PropertyChange) :
    Command.applyRequest (.ofChange change (.directory path)) .directory e =
      (.done, e.editDirectory id change.property change.edit) := by
  have few : ¬1 < (PropertyPlace.directory path).name?.toList.length := by
    cases path <;> simp [PropertyPlace.name?]
  have first : (PropertyPlace.directory path).name?.toList.head? = path := by cases path <;> rfl
  unfold Command.applyRequest
  dsimp only
  rw [Command.namesOfChange, if_neg few, Step.bindRan (s := get) (e := e) rfl, first, found,
    Command.SetPropertyRequest.editOfChange]
  rfl

theorem targetRequest {target : String} {t : Target} (real : e.targets.isAlias target = false)
    (there : e.targets.targets[target]? = some t)
    (ordinary : Ordinary change.property) :
    Command.applyRequest (.ofChange change (.target target)) .target e =
      (.done, { e with targets := e.targets.modify target fun t =>
        { t with properties := change.edit.apply t.properties change.property } }) := by
  have edited : e.editTarget target change.property change.edit =
      (true, { e with targets := e.targets.modify target fun t =>
        { t with properties := change.edit.apply t.properties change.property } }) := by
    rw [Engine.editTarget, ordinary.target]
    rfl
  unfold Command.applyRequest
  dsimp only
  rw [Command.namesOfChange]
  change Command.setTargets _ [target] e = _
  rw [Command.setTargets, Step.bindRan (s := get) (e := e) rfl, real,
    Targets.containsThere there, Command.SetPropertyRequest.editOfChange]
  simp only [Bool.false_eq_true, if_false, Bool.not_true]
  rw [show (Command.SetPropertyRequest.ofChange change (.target target)).property =
    change.property from rfl, edited]
  rfl

theorem entryRequest {entry : String} {x : CacheEntry} (there : e.cache[entry]? = some x)
    (ordinary : Ordinary change.property) :
    Command.applyRequest (.ofChange change (.entry entry)) .cache e =
      (.done, { e with cache := change.edit.applyToCache e.cache entry change.property }) := by
  have known : e.cache.contains entry = true := by
    rw [Std.TreeMap.contains_eq_isSome_getElem?, there]
    rfl
  have allowed : Command.cacheRefusal?
      (Command.SetPropertyRequest.ofChange change (.entry entry)) = none := by
    simp [Command.cacheRefusal?, Command.SetPropertyRequest.ofChange, ordinary.ofEntry]
  unfold Command.applyRequest
  dsimp only
  rw [Command.namesOfChange]
  change Command.setCacheEntries _ [entry] e = _
  rw [Command.setCacheEntries, Step.bindRan (s := get) (e := e) rfl, known, allowed,
    Command.SetPropertyRequest.editOfChange]
  rfl

theorem requestMakes (ordinary : Ordinary change.property)
    (held : e.Holds change.property before place) :
    ∃ e', Command.applyRequest (.ofChange change place) place.scope e = (.done, e') ∧
      e'.Holds change.property ((place.arriving change.edit).onto before) place ∧
      e.KeepsOthers e' change.property place := by
  cases place with
  | global =>
    cases held
    refine ⟨{ e with globals := change.edit.apply e.globals change.property }, ?_,
      PropertyEdit.applyFinds .., ⟨?_, rfl⟩⟩
    · rw [← Command.SetPropertyRequest.editOfChange change .global]
      rfl
    · rintro (_ | _ | _ | _) other value held
      case global => exact absurd rfl other
      all_goals exact held
  | directory path =>
    obtain ⟨id, d, found, there, rfl⟩ := held
    exact ⟨_, directoryRequest found change,
      directoryMade ordinary found there change.edit⟩
  | target target =>
    obtain ⟨real, t, there, rfl⟩ := held
    exact ⟨_, targetRequest real there ordinary, targetMade real there change.edit⟩
  | entry entry =>
    obtain ⟨x, there, rfl⟩ := held
    exact ⟨_, entryRequest there ordinary, entryMade there ordinary change.edit⟩

/-! Reading -/

variable {name : String} {value : Option String}

theorem ownGiven {name : String} (given : name ∉ ["SOURCE_DIR", "BINARY_DIR", "PARENT_DIRECTORY",
    "LISTFILE_STACK", "VARIABLES", "MACROS", "SUBDIRECTORIES", "BUILDSYSTEM_TARGETS"])
    (apart : ContentKind.ofProperty? name = none) (e : Engine) (id : Nat) (d : Directory) :
    e.ownProperty? id d name = d.properties[name]? := by
  simp only [List.mem_cons, List.not_mem_nil, or_false, not_or] at given
  simp [ownProperty?, given, apart]

theorem ownOrdinary (ordinary : Ordinary name) (e : Engine) (id : Nat) (d : Directory) :
    e.ownProperty? id d name = d.properties[name]? :=
  ownGiven ordinary.directory ordinary.content e id d

theorem directoryReads (ordinary : Ordinary name) {path : Option String} {id : Nat}
    {d : Directory} (found : e.findDirectory? path = some id)
    (there : e.scopes.directory? id = some d) :
    e.directoryProperty? id name =
      d.properties[name]?.or (e.above? name (.directory path)) := by
  unfold directoryProperty? propertyWithin above?
  simp only [there, found, Option.bind_some, ownOrdinary ordinary, bind]
  cases d.properties[name]? <;> rfl

theorem targetReads (ordinary : Ordinary name) {target : String} {t : Target}
    (real : e.targets.isAlias target = false) (there : e.targets.targets[target]? = some t) :
    e.targetProperty? target name = t.properties[name]?.or (e.above? name (.target target)) := by
  have plain := ordinary.target
  simp only [Target.isReadOnly, List.contains_eq_mem, List.mem_cons, List.not_mem_nil, or_false,
    decide_eq_false_iff_not, not_or] at plain
  unfold targetProperty? above?
  simp only [Targets.getReal real there, Target.property?, plain, if_false, bind, Option.bind_some]
  cases t.properties[name]? with
  | some value => rfl
  | none => rw [Option.none_or]

theorem lookUpHeld (ordinary : Ordinary name) (held : e.Holds name value place)
    {r : Command.GetPropertyRequest} (named : r.name = place.name?) (asked : r.property = name) :
    Command.lookUpProperty e place.scope r = .ok (value.or (e.above? name place)) := by
  subst asked
  cases place with
  | global =>
    have plain := ordinary.run
    simp only [List.mem_cons, List.not_mem_nil, or_false, not_or] at plain
    cases held
    simp [Command.lookUpProperty, PropertyPlace.scope, named, PropertyPlace.name?,
      globalProperty?, plain, above?]
  | directory path =>
    obtain ⟨id, d, found, there, rfl⟩ := held
    simp only [Command.lookUpProperty, PropertyPlace.scope, named, PropertyPlace.name?, found,
      directoryReads ordinary found there]
  | target target =>
    obtain ⟨real, t, there, rfl⟩ := held
    simp only [Command.lookUpProperty, PropertyPlace.scope, named, PropertyPlace.name?,
      Targets.containsThere there, targetReads ordinary real there, if_true]
  | entry entry =>
    obtain ⟨x, there, rfl⟩ := held
    simp [Command.lookUpProperty, PropertyPlace.scope, named, PropertyPlace.name?,
      Cache.property?, there, ordinary.ofEntry, above?]

end Engine

namespace Command

variable {e : Engine} {name : String} {value : Option String} {place : PropertyPlace}

def asking (output name : String) (place : PropertyPlace) (question : List String) : List String :=
  output :: place.keyword :: (place.name?.toList ++ "PROPERTY" :: name :: question)

theorem readableKeyword (place : PropertyPlace) :
    readableScope? place.keyword = some place.scope := by cases place <;> rfl

theorem readAsking (named : ∀ name ∈ place.name?, name ∉ questionWords)
    (plain : name ∉ questionWords) :
    GetPropertyRequest.read {} (place.name?.toList ++ ["PROPERTY", name]) =
        .ok { part := .nothing, name := place.name?, property := name } ∧
      GetPropertyRequest.read {} (place.name?.toList ++ ["PROPERTY", name, "SET"]) =
        .ok { part := .nothing, name := place.name?, property := name, question := .isSet } := by
  simp only [questionWords, List.mem_cons, List.not_mem_nil, or_false, not_or] at named plain
  cases same : place.name? with
  | none => simp [GetPropertyRequest.read, plain]
  | some own => simp [GetPropertyRequest.read, plain, named own same]

theorem getPropertyAsks {words : List String} {r : GetPropertyRequest} (some : words ≠ [])
    (read : GetPropertyRequest.read {} words = .ok r) (given : r.property ≠ "")
    (output : String) (place : PropertyPlace) :
    getProperty (output :: place.keyword :: words) = answerQuestion output place.scope r := by
  obtain ⟨first, more, rfl⟩ := List.exists_cons_of_ne_nil some
  rw [getProperty, readableKeyword, read]
  simp [given]

theorem getPropertyHeld (ordinary : Ordinary name) (held : e.Holds name value place)
    (named : ∀ name ∈ place.name?, name ∉ questionWords) (output : String) :
    let shown := value.or (e.above? name place)
    getProperty (asking output name place []) e = (.done, e.assign output shown) ∧
      getProperty (asking output name place ["SET"]) e =
        (.done, e.define output (if shown.isSome then "1" else "0")) := by
  intro shown
  obtain ⟨asksValue, asksSet⟩ := readAsking named ordinary.given.2.2
  have looked {r : GetPropertyRequest} (own : r.name = place.name?) (asked : r.property = name) :
      lookUpProperty e place.scope r = .ok shown := Engine.lookUpHeld ordinary held own asked
  refine ⟨?_, ?_⟩
  · rw [asking, getPropertyAsks (by simp) asksValue ordinary.given.1, answerQuestion,
      Step.bindRan (s := get) (e := e) rfl]
    dsimp only
    rw [looked rfl rfl]
    rfl
  · rw [asking, getPropertyAsks (by simp) asksSet ordinary.given.1, answerQuestion,
      Step.bindRan (s := get) (e := e) rfl]
    dsimp only
    rw [looked rfl rfl]
    rfl

/-! The same change in several places -/

def changeEach (change : PropertyChange) (places : List PropertyPlace) : Step (List Verdict) :=
  places.mapM fun place => setProperty (change.words place)

variable {change : PropertyChange} {places : List PropertyPlace} {before : Option String}

theorem setPropertyMakes (ordinary : Ordinary change.property)
    (others : ∀ value ∈ change.values, value ∉ changeWords)
    (named : ∀ name ∈ place.name?, name ∉ changeWords)
    (held : e.Holds change.property before place) :
    ∃ e', setProperty (change.words place) e = (.done, e') ∧
      e'.Holds change.property ((place.arriving change.edit).onto before) place ∧
      e.KeepsOthers e' change.property place := by
  rw [setPropertyApplies named ordinary.given.2.1 ordinary.given.1 others]
  exact Engine.requestMakes ordinary held

theorem changeEachMakes (ordinary : Ordinary change.property)
    (others : ∀ value ∈ change.values, value ∉ changeWords)
    (apart : (places.map PropertyPlace.scope).Nodup)
    (named : ∀ place ∈ places, ∀ name ∈ place.name?, name ∉ changeWords)
    (held : ∀ place ∈ places, e.Holds change.property before place) :
    ∃ e', changeEach change places e = (places.map fun _ => .done, e') ∧
      (∀ place ∈ places,
        e'.Holds change.property ((place.arriving change.edit).onto before) place) ∧
      e'.declarations = e.declarations ∧
      ∀ other, other.scope ∉ places.map PropertyPlace.scope →
        ∀ value, e.Holds change.property value other → e'.Holds change.property value other := by
  induction places generalizing e with
  | nil => exact ⟨e, rfl, nofun, rfl, fun _ _ _ held => held⟩
  | cons place places ih =>
    obtain ⟨new, apart⟩ := List.nodup_cons.mp apart
    obtain ⟨named, namedLater⟩ := List.forall_mem_cons.mp named
    obtain ⟨here, later⟩ := List.forall_mem_cons.mp held
    obtain ⟨e₁, ran, made, kept⟩ := setPropertyMakes ordinary others named here
    have still : ∀ place ∈ places, e₁.Holds change.property before place := by
      refine fun other member => kept.held other ?_ before (later other member)
      exact fun same => new (same ▸ List.mem_map_of_mem member)
    obtain ⟨e', ranLater, madeLater, declared, keptLater⟩ := ih apart namedLater still
    refine ⟨e', ?_, ?_, declared.trans kept.declarations, ?_⟩
    · rw [changeEach, List.mapM_cons, Step.bindRan ran]
      exact (Step.bindRan ranLater).trans rfl
    · exact List.forall_mem_cons.mpr ⟨keptLater place new _ made, madeLater⟩
    · intro other apartFrom value held
      rw [List.map_cons, List.mem_cons, not_or] at apartFrom
      exact keptLater other apartFrom.2 value (kept.held other apartFrom.1 value held)

def oneOfEach (path : Option String) (target entry : String) : List PropertyPlace :=
  [.global, .directory path, .target target, .entry entry]

/-- The same change in a run, a directory, a target and a cache entry that hold the same value:
all four show the same value afterwards, unless raw text is appended to a text or a value is
removed, where the cache entry differs. -/
theorem changesAgree {change : PropertyChange} {before : Option String} {e : Engine}
    {path : Option String} {target entry : String} (ordinary : Ordinary change.property)
    (others : ∀ value ∈ change.values, value ∉ changeWords)
    (named : ∀ place ∈ oneOfEach path target entry, ∀ name ∈ place.name?,
      name ∉ changeWords ∧ name ∉ questionWords)
    (held : ∀ place ∈ oneOfEach path target entry, e.Holds change.property before place) :
    ∃ e', changeEach change (oneOfEach path target entry) e =
        ([.done, .done, .done, .done], e') ∧
      ∀ place ∈ oneOfEach path target entry,
        let own := (place.arriving change.edit).onto before
        let shown := own.or (e'.above? change.property place)
        (own = change.edit.onto before ↔
          ¬(place.scope = .cache ∧ change.edit.DiffersInCache before)) ∧
        (e.declarations.isInherited place.scope change.property = false → shown = own) ∧
        ∀ output,
          getProperty (asking output change.property place []) e' =
            (.done, e'.assign output shown) ∧
          getProperty (asking output change.property place ["SET"]) e' =
            (.done, e'.define output (if shown.isSome then "1" else "0")) := by
  obtain ⟨e', ran, made, declared, -⟩ := changeEachMakes ordinary others
    (show ((oneOfEach path target entry).map PropertyPlace.scope).Nodup by simp [oneOfEach, PropertyPlace.scope])
    (fun place member name own => (named place member name own).1) held
  refine ⟨e', ran, fun place member => ⟨place.arrivingAgrees .., ?_, fun output => ?_⟩⟩
  · intro own
    rw [Engine.aboveUninherited (declared ▸ own), Option.or_none]
  · exact getPropertyHeld ordinary (made place member)
      (fun name own => (named place member name own).2) output

theorem rawTextListed :
    let places := oneOfEach none "t" "E"
    let start := (addCustomTarget ["t"]
      (Engine.start { mode := .project, cacheEntries := ["E=v"] } {} [])).2
    let e := (changeEach ⟨"P", none, ["a"]⟩ places start).2
    ∃ e', changeEach ⟨"P", some true, ["b"]⟩ places e = ([.done, .done, .done, .done], e') ∧
      ∀ place ∈ places, ∀ output, getProperty (asking output "P" place []) e' =
        (.done, e'.assign output (some (if place.scope = .cache then "a;b" else "ab"))) := by
  intro places start e
  let first : PropertyChange := ⟨"P", none, ["a"]⟩
  let second : PropertyChange := ⟨"P", some true, ["b"]⟩
  have ordinary : Ordinary "P" := by constructor <;> decide
  have bare : ∀ place ∈ places, start.Holds "P" none place := by
    simp only [places, oneOfEach, List.forall_mem_cons, List.not_mem_nil, false_imp_iff,
      implies_true, and_true]
    exact ⟨rfl, ⟨_, _, rfl, rfl, rfl⟩, ⟨rfl, _, rfl, rfl⟩, ⟨_, rfl, rfl⟩⟩
  obtain ⟨e₁, ran, made, declared, -⟩ := changeEachMakes ordinary
    (show ∀ value ∈ first.values, value ∉ changeWords by decide)
    (show (places.map PropertyPlace.scope).Nodup by decide) (by decide) bare
  obtain rfl : e = e₁ := congrArg Prod.snd ran
  have held : ∀ place ∈ places, e.Holds "P" (some "a") place := by
    intro place member
    have := made place member
    cases place <;> exact this
  obtain ⟨e', ended, shows⟩ := changesAgree ordinary
    (show ∀ value ∈ second.values, value ∉ changeWords by decide)
    (show ∀ place ∈ places, _ by decide) held
  refine ⟨e', ended, fun place member output => ?_⟩
  obtain ⟨-, own, asked⟩ := shows place member
  have undeclared : e.declarations.isInherited place.scope "P" = false := by
    rw [declared]
    cases place <;> rfl
  rw [(asked output).1, own undeclared]
  cases place <;> rfl

end Command
end CMakeScript
