import CMakeScript.Proofs.DirectoryIsolation
/-! What snapshots see of the contents of their directories. The log of a directory only grows, and
each snapshot sees its front; of everything else that a snapshot or a directory holds nothing
shows. -/
namespace CMakeScript

namespace PerContent

variable {α : Type}

theorem getSet (p : PerContent α) (kind other : ContentKind) (value : α) :
    (p.set kind value).get other = if other = kind then value else p.get other := by
  cases kind <;> cases other <;> rfl

end PerContent

namespace ContentLog

def write (seen : List String) : Option String → List String
  | some value => seen ++ [value]
  | none => []

def read (log : ContentLog) : List String := log.foldl write []

theorem visibleRead (log : ContentLog) (length : Nat) : visible log length = read (log.take length) := by
  unfold visible read
  rw [← List.reverse_reverse (log.take length)]
  generalize (log.take length).reverse = latest
  rw [List.reverse_reverse]
  induction latest with
  | nil => rfl
  | cons entry rest ih =>
    rw [List.reverse_cons, List.foldl_append, ← ih]
    cases entry <;> simp [write]

@[simp] theorem visibleWhole (log : ContentLog) : visible log log.length = read log := by
  rw [visibleRead, List.take_length]

theorem visibleAppend {log : ContentLog} {length : Nat} (inside : length ≤ log.length)
    (entries : ContentLog) : visible (log ++ entries) length = visible log length := by
  rw [visibleRead, visibleRead, List.take_append_of_le_length inside]

theorem readAppend (log entries : ContentLog) : read (log ++ entries) = entries.foldl write (read log) :=
  List.foldl_append

theorem readValues (values : List String) : read (values.map some) = values := by
  unfold read
  suffices fold : ∀ seen, (values.map some).foldl write seen = seen ++ values by
    exact fold []
  induction values with
  | nil => simp
  | cons value rest ih => simp [write, ih]

end ContentLog

def Snapshot.sight (p : Snapshot) : Nat × PerContent Nat := (p.directory, p.contentLengths)

def Directory.ledger (d : Directory) : Nat × PerContent ContentLog := (d.current, d.contents)

structure ContentView where
  scopes : Arena (Nat × PerContent Nat)
  directories : Arena (Nat × PerContent ContentLog)

namespace Scopes

def contentView (s : Scopes) : ContentView :=
  ⟨s.snapshots.map Snapshot.sight, s.directories.map Directory.ledger⟩

theorem getSight (s : Scopes) (id : Nat) :
    s.contentView.scopes.get? id = (s.snapshots.get? id).map Snapshot.sight :=
  Arena.getMap ..

theorem getLedger (s : Scopes) (d : Nat) :
    s.contentView.directories.get? d = (s.directories.get? d).map Directory.ledger :=
  Arena.getMap ..

@[simp] theorem sizeSights (s : Scopes) : s.contentView.scopes.size = s.snapshots.size :=
  Arena.sizeMap ..

@[simp] theorem sizeLedgers (s : Scopes) : s.contentView.directories.size = s.directories.size :=
  Arena.sizeMap ..

end Scopes

namespace ContentView

def seen (v : ContentView) (id : Nat) (kind : ContentKind) : List String :=
  match v.scopes.get? id with
  | some (d, lengths) =>
    match v.directories.get? d with
    | some (_, logs) => ContentLog.visible (logs.get kind) (lengths.get kind)
    | none => []
  | none => []

theorem seenOf {v : ContentView} {id d x : Nat} {lengths : PerContent Nat}
    {logs : PerContent ContentLog} (here : v.scopes.get? id = some (d, lengths))
    (there : v.directories.get? d = some (x, logs)) (kind : ContentKind) :
    v.seen id kind = ContentLog.visible (logs.get kind) (lengths.get kind) := by
  simp [seen, here, there]

def enter (v : ContentView) (origin : Nat) (sight : Nat × PerContent Nat) : ContentView where
  scopes := (v.scopes.push origin sight).1
  directories := v.directories.modify sight.1 fun (_, logs) => (v.scopes.size + 1, logs)

def enterDirectory (v : ContentView) (origin outside : Nat) : ContentView where
  scopes := (v.scopes.push origin
    (v.directories.size + 1, .ofFn fun kind => (v.seen origin kind).length)).1
  directories := (v.directories.push outside
    (v.scopes.size + 1, .ofFn fun kind => (v.seen origin kind).map some)).1

def log (v : ContentView) (id d : Nat) (kind : ContentKind) (whole : ContentLog) : ContentView where
  scopes := v.scopes.modify id fun (d, lengths) => (d, lengths.set kind whole.length)
  directories := v.directories.modify d fun (x, logs) => (x, logs.set kind whole)

def resume (v : ContentView) (up d : Nat) (logs : PerContent ContentLog) : ContentView where
  scopes := v.scopes.modify up fun (d, _) => (d, .ofFn fun kind => (logs.get kind).length)
  directories := v.directories.modify d fun (_, logs) => (up, logs)

end ContentView

namespace Scopes

theorem contentSeen (s : Scopes) (id : Nat) (kind : ContentKind) :
    s.content id kind = s.contentView.seen id kind := by
  unfold content ContentView.seen
  rw [getSight]
  cases s.snapshots.get? id with
  | none => rfl
  | some here =>
    simp only [Option.map_some, Snapshot.sight, getLedger]
    cases s.directories.get? here.directory <;> rfl

theorem sightModifySnapshot (s : Scopes) (id : Nat) {f : Snapshot → Snapshot}
    (hidden : ∀ p, (f p).sight = p.sight) : (s.modifySnapshot id f).contentView = s.contentView := by
  simp [contentView, modifySnapshot, Arena.mapModify hidden]

theorem sightSnapshot (s : Scopes) (id : Nat) {f : Snapshot → Snapshot}
    {h : Nat × PerContent Nat → Nat × PerContent Nat} (shown : ∀ p, (f p).sight = h p.sight) :
    (s.modifySnapshot id f).contentView =
      { s.contentView with scopes := s.contentView.scopes.modify id h } := by
  simp [contentView, modifySnapshot, Arena.mapModifyWith shown]

theorem sightDirectory (s : Scopes) (d : Nat) {f : Directory → Directory}
    {h : Nat × PerContent ContentLog → Nat × PerContent ContentLog}
    (shown : ∀ x, (f x).ledger = h x.ledger) : (s.modifyDirectory d f).contentView =
      { s.contentView with directories := s.contentView.directories.modify d h } := by
  simp [contentView, modifyDirectory, Arena.mapModifyWith shown]

theorem sightUpdateDirectory (s : Scopes) (id : Nat) {f : Directory → Directory}
    (hidden : ∀ d, (f d).ledger = d.ledger) : (s.updateDirectory id f).contentView = s.contentView := by
  unfold updateDirectory modifyDirectory
  split
  · simp [contentView, Arena.mapModify hidden]
  · rfl

@[simp] theorem sightDefine (s : Scopes) (id : Nat) (name value : String) :
    (s.define id name value).contentView = s.contentView := by
  unfold define
  split <;> rfl

@[simp] theorem sightUndefine (s : Scopes) (id : Nat) (name : String) :
    (s.undefine id name).contentView = s.contentView := by
  unfold undefine
  split <;> rfl

@[simp] theorem sightDefineDefaults (s : Scopes) (id : Nat) :
    (s.defineDefaults id).contentView = s.contentView :=
  defineDefaultsKept sightDefine s id

theorem sightRaise {s s' : Scopes} {id : Nat} {name : String} {value : Option String}
    (raised : s.raise? id name value = some s') : s'.contentView = s.contentView := by
  obtain ⟨frames, rfl⟩ := raiseFrames raised
  rfl

@[simp] theorem sightSetListFile (s : Scopes) (id : Nat) (path : String) :
    (s.setListFile id path).contentView = s.contentView := by
  unfold setListFile
  split <;> rfl

@[simp] theorem sightSetLocations (s : Scopes) (id : Nat) (source binary : String) :
    (s.setLocations id source binary).contentView = s.contentView := by
  unfold setLocations
  rw [sightDefine, sightDefine]
  exact sightUpdateDirectory _ _ fun _ => rfl

theorem sightPushPolicy {s s' : Scopes} {id : Nat} {settings : PolicySettings} {weak : Bool}
    (pushed : s.pushPolicy id settings weak = .ok s') : s'.contentView = s.contentView := by
  obtain ⟨here, -, rfl⟩ := pushPolicyCases pushed
  exact sightModifySnapshot _ _ fun _ => rfl

theorem sightPopPolicy {s s' : Scopes} {id : Nat} (popped : s.popPolicy id = .ok (some s')) :
    s'.contentView = s.contentView := by
  obtain ⟨here, -, -, rfl⟩ := popPolicyCases popped
  exact sightModifySnapshot _ _ fun _ => rfl

theorem sightMarkPolicyScope {s s' : Scopes} {id : Nat} (marked : s.markPolicyScope id = .ok s') :
    s'.contentView = s.contentView := by
  rw [markPolicyScopeCases marked]
  exact sightModifySnapshot _ _ fun _ => rfl

theorem sightLog {s : Scopes} {id : Nat} {here : Snapshot} {d : Directory}
    (found : s.snapshots.get? id = some here) (there : s.directories.get? here.directory = some d)
    (kind : ContentKind) (entries : ContentLog) : (s.logContent id kind entries).contentView =
      s.contentView.log id here.directory kind (d.contents.get kind ++ entries) := by
  let whole := d.contents.get kind ++ entries
  simp only [logContent, found, there]
  rw [sightSnapshot (h := fun x => (x.1, x.2.set kind whole.length)),
    sightDirectory (h := fun x => (x.1, x.2.set kind whole))]
  · rfl
  · exact fun _ => rfl
  · exact fun _ => rfl

theorem sightCreate {s s' : Scopes} {origin id : Nat} {o : ScopeOpening}
    (created : o.create s origin = .ok (s', id)) : ∃ sight,
      s.contentView.scopes.get? origin = some sight ∧ id = s.contentView.scopes.size + 1 ∧
        s'.contentView = s.contentView.enter origin sight := by
  rw [ScopeOpening.createNested] at created
  obtain ⟨parent, found, rfl, rfl⟩ := createNestedCases created
  refine ⟨parent.sight, by rw [getSight, found]; rfl, by simp, ?_⟩
  unfold innerScopes
  rw [sightDirectory (h := fun x => (s.snapshots.size + 1, x.2))]
  · simp only [contentView, ContentView.enter, Arena.mapPush, Arena.sizeMap]
    rfl
  · exact fun _ => rfl

theorem sightCreateDirectory {s s' : Scopes} {origin id : Nat}
    (created : s.createDirectory origin = .ok (s', id)) : ∃ sight,
      s.contentView.scopes.get? origin = some sight ∧ id = s.contentView.scopes.size + 1 ∧
        s'.contentView = s.contentView.enterDirectory origin sight.1 := by
  obtain ⟨parent, found, rfl, same⟩ := createDirectoryCases created
  refine ⟨parent.sight, by rw [getSight, found]; rfl, by simp, ?_⟩
  rw [same, sightDefineDefaults]
  simp only [bareDirectory, directorySnapshot, ContentView.enterDirectory, ← contentSeen]
  rw [contentView, Arena.mapModify, Arena.mapPush, Arena.mapPush]
  · simp [Snapshot.sight, Directory.ledger, contentView]
  · exact fun _ => rfl

theorem sightResume {s : Scopes} {up : Nat} {outer : Snapshot} {d : Directory}
    (there : s.directories.get? outer.directory = some d) :
    (s.resume up outer).contentView = s.contentView.resume up outer.directory d.contents := by
  simp only [resume, there]
  rw [sightDirectory (h := fun x => (up, x.2)),
    sightSnapshot (h := fun x => (x.1, .ofFn fun kind => (d.contents.get kind).length))]
  · rfl
  · exact fun _ => rfl
  · exact fun _ => rfl

theorem sightReclaim (s : Scopes) (id : Nat) (inner outer : Snapshot) :
    (s.reclaim id inner outer).contentView = s.contentView ∨
      inner.keep = false ∧ s.contentView.scopes.isLast id = true ∧
        (s.reclaim id inner outer).contentView =
          { s.contentView with scopes := (s.contentView.scopes.pop id).1 } := by
  unfold reclaim
  split
  case isTrue => exact .inl rfl
  case isFalse dropped =>
    simp only [Bool.or_eq_true, not_or, Bool.not_eq_true, Bool.not_eq_eq_eq_not,
      Bool.not_true] at dropped
    refine .inr ⟨dropped.1, by simpa [contentView] using dropped.2, ?_⟩
    simp only [contentView, ContentView.mk.injEq, and_true]
    exact Arena.mapPop ..

end Scopes
end CMakeScript
