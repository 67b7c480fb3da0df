import CMakeScript.Proofs.IncludeSettings
/-! The include directories of a directory and those of the targets that it lists. A command writes
them in both places, in a log and in a property, and a new target starts with what is in the log.
Where nothing else is written to either, both come to the same text. -/
namespace CMakeScript

open ListValue (Clear Spells)

namespace Scopes

variable {s s' : Scopes} {id d : Nat}

theorem contentsBeyond {v : ContentView} (beyond : v.directories.size < d) (kind : ContentKind) :
    v.contents d kind = ⟨[], []⟩ := by
  rw [ContentView.contents, Arena.getBeyond beyond]

theorem listedBeyond (beyond : s.directories.size < d) : s.listed d = [] := by
  rw [listed, Arena.getBeyond beyond]
  rfl

theorem directoryCreated {origin : Nat} (created : s.createDirectory origin = .ok (s', id)) :
    s'.directoryOf id = some (s.directories.size + 1) := by
  obtain ⟨sight, -, rfl, view⟩ := sightCreateDirectory created
  have here := Arena.getPush s.contentView.scopes origin
    (s.contentView.directories.size + 1, .ofFn fun kind => (s.contentView.seen origin kind).length)
    (s.contentView.scopes.size + 1)
  have made : (s.contentView.scopes.push origin _).1 = s'.contentView.scopes :=
    (congrArg ContentView.scopes view).symm
  rw [if_pos rfl, made, getSight] at here
  obtain ⟨p, live, same⟩ := Option.map_eq_some_iff.mp here
  rw [directoryOf, live, ← s.sizeLedgers]
  exact congrArg some (Prod.mk.inj same).1

end Scopes

namespace Engine

variable {e e' : Engine} {d : Nat}

theorem Adds.inStep (adds : e.Adds e') (charted : e.Charted) :
    e'.scopes.contentView = e.scopes.contentView ∧ ∀ d, e.InStep d →
      (e.scopes.directoryOf e.snapshot = some d → e.Uninitialized) → e'.InStep d := by
  have included (d : Nat) (name : String) (member : name ∈ e.scopes.listed d) :
      e'.included? name = e.included? name := by
    rw [included?, adds.kept name (charted.consistent.built member).contains, included?]
  obtain same | ⟨name, made, starts⟩ := adds.listed
  · exact ⟨congrArg _ same, fun d inStep _ =>
      inStep.same (by rw [same]) (by rw [same]) (included d)⟩
  have view : e'.scopes.contentView = e.scopes.contentView :=
    made ▸ Scopes.sightUpdateDirectory _ _ fun _ => rfl
  refine ⟨view, fun d inStep free => ?_⟩
  obtain ⟨p, directory, found, there, -, here⟩ := charted.within
  have listed := Scopes.listedAdded found there name d
  rw [← made] at listed
  by_cases same : d = p.directory
  · subst same
    obtain ⟨items, entries, written, spells, all⟩ := inStep
    refine ⟨items, entries, view ▸ written, spells, fun other member => ?_⟩
    rw [listed, if_pos rfl, List.mem_append, List.mem_singleton] at member
    obtain member | rfl := member
    · rw [included _ other member, all other member]
    · rw [starts (free here), Scopes.contentCurrent charted.current here, written, spells.same]
  · rw [if_neg same] at listed
    exact inStep.same (by rw [view]) listed (included d)

theorem Charted.relisted (charted : e.Charted) (targets : e'.targets = e.targets)
    (listed : e'.scopes.listed = e.scopes.listed) : e'.roster.Consistent := by
  rw [roster, targets, listed]
  exact charted.consistent

theorem Charted.beside (charted : e.Charted) (scopes : e'.scopes = e.scopes)
    (targets : e'.targets = e.targets) (grounded : e'.Grounded)
    (placed : e'.current < e'.runs.size) :
    e'.Charted ∧ ∀ d, e.InStep d → e'.InStep d := by
  constructor
  case left =>
    constructor
    case grounded => exact grounded
    case rooted => exact scopes ▸ charted.rooted
    case measured => exact scopes ▸ charted.measured
    case consistent => exact charted.relisted targets (scopes ▸ rfl)
    case placed => exact placed
  case right =>
    intro d inStep
    refine inStep.same (by rw [scopes]) (by rw [scopes]) fun name _ => ?_
    rw [included?, targets, included?]

theorem Charted.unseen (charted : e.Charted) (edits : Edits e e')
    (view : e'.scopes.contentView = e.scopes.contentView)
    (listed : e'.scopes.listed = e.scopes.listed) (targets : e'.targets = e.targets) :
    e'.Charted ∧ ∀ d, e.InStep d → e'.InStep d := by
  refine ⟨charted.edits edits (view ▸ charted.measured), fun d inStep => ?_⟩
  refine inStep.same (by rw [view]) (congrFun listed d) fun name _ => ?_
  rw [included?, targets, included?]

theorem Charted.opened (charted : e.Charted) {o : ScopeOpening} {scopes : Scopes} {id : Nat}
    (created : o.create e.scopes e.snapshot = .ok (scopes, id)) :
    (({ e with scopes } : Engine).setSnapshot id).Charted ∧
      ∀ d, e.InStep d → (({ e with scopes } : Engine).setSnapshot id).InStep d := by
  have applied : (ScopeUse.enter e.snapshot o).apply e.scopes = scopes := by
    rw [ScopeUse.apply, created]
  have listed : scopes.listed = e.scopes.listed :=
    Scopes.listedRecords (Scopes.recordsOpened created)
  obtain ⟨sight, found, -, view⟩ := Scopes.sightCreate created
  obtain ⟨p, directory, live, there, same, -⟩ := charted.within
  have current : e.scopes.contentView.directories.get? sight.1 =
      some (e.snapshot, directory.contents) := by
    rw [Scopes.getSight, live] at found
    cases found
    rw [Scopes.getLedger, show p.sight.1 = p.directory from rfl, there, ← same]
    rfl
  have contents := ContentView.contentsEnter (Scopes.placedContents charted.sound) found current
  rw [← view] at contents
  constructor
  case left =>
    constructor
    case grounded => exact charted.grounded.openScope created
    case rooted => exact applied ▸ charted.rooted.move charted.sound (ScopeUse.moves _ _)
    case measured => exact applied ▸ (Scopes.contentsApply charted.sound charted.measured _).1
    case consistent => exact charted.relisted rfl listed
    case placed => simpa [setSnapshot] using charted.placed
  case right =>
    exact fun d inStep => inStep.same (contents d _) (congrFun listed d) fun _ _ => rfl

theorem Charted.closed (charted : e.Charted) {own : Bool}
    (below : e.scopes.tree.Below own e.snapshot) {scopes : Scopes} {up : Nat}
    (popped : e.scopes.pop e.snapshot = .ok (scopes, up)) :
    (({ e with scopes } : Engine).setSnapshot up).Charted ∧
      ∀ d, e.InStep d → (({ e with scopes } : Engine).setSnapshot up).InStep d := by
  have applied : (ScopeUse.leave e.snapshot).apply e.scopes = scopes := by
    rw [ScopeUse.apply, popped]
  have listed : scopes.listed = e.scopes.listed :=
    Scopes.listedRecords (Scopes.recordsPopped popped)
  obtain ⟨measured, contents⟩ := Scopes.contentsLeave charted.sound charted.measured e.snapshot
  rw [applied] at measured contents
  constructor
  case left =>
    constructor
    case grounded => exact charted.grounded.closeScope charted.rooted below popped
    case rooted => exact applied ▸ charted.rooted.move charted.sound (ScopeUse.moves _ _)
    case measured => exact measured
    case consistent => exact charted.relisted rfl listed
    case placed => simpa [setSnapshot] using charted.placed
  case right =>
    intro d inStep
    refine inStep.same ((contents d _).trans ?_) (congrFun listed d) fun _ _ => rfl
    obtain ⟨items, entries, written, -⟩ := inStep
    rw [written, Contents.after, popped]
    exact ite_self _

theorem Charted.added (charted : e.Charted) {scopes : Scopes} {id : Nat} (source binary : String)
    {f : Directory → Directory}
    (created : e.scopes.createDirectory e.snapshot = .ok (scopes, id))
    (hidden : ∀ x, (f x).ledger = x.ledger ∧ (f x).children = x.children)
    (unlisted : ∀ x, (f x).targetNames = x.targetNames) :
    let e' : Engine :=
      { e with scopes := (scopes.setLocations id source binary).updateDirectory id f }
    e'.Charted ∧ ∀ d, e.InStep d →
      (scopes.directoryOf id = some d →
        ∃ above, e.scopes.directoryOf e.snapshot = some above ∧ e.InStep above) →
      e'.InStep d := by
  have applied : (ScopeUse.enterDirectory e.snapshot).apply e.scopes = scopes := by
    rw [ScopeUse.apply, created]
  have current x : (f x).current = x.current ∧ (f x).children = x.children :=
    ⟨congrArg Prod.fst (hidden x).1, (hidden x).2⟩
  have tree : ((scopes.setLocations id source binary).updateDirectory id f).tree = scopes.tree :=
    (Scopes.treeUpdateDirectory _ _ current).trans (Scopes.treeSetLocations ..)
  have view : ((scopes.setLocations id source binary).updateDirectory id f).contentView =
      scopes.contentView :=
    (Scopes.sightUpdateDirectory _ _ fun x => (hidden x).1).trans (Scopes.sightSetLocations ..)
  have listed : ((scopes.setLocations id source binary).updateDirectory id f).listed =
      e.scopes.listed := by
    rw [Scopes.listedUpdate _ _ unlisted, Scopes.listedSetLocations,
      Scopes.listedCreateDirectory created]
  dsimp only
  constructor
  case left =>
    constructor
    case grounded =>
      exact (charted.grounded.subdirectory (.created source binary created current unlisted)).1
    case rooted => exact tree ▸ applied ▸ charted.rooted.move charted.sound (ScopeUse.moves _ _)
    case measured =>
      exact view ▸ applied ▸ (Scopes.contentsApply charted.sound charted.measured _).1
    case consistent => exact charted.relisted rfl listed
    case placed => exact charted.placed
  case right =>
    intro d inStep above
    obtain ⟨sight, -, new, made⟩ := Scopes.sightCreateDirectory created
    have contents := view.trans made
    obtain new | known := Nat.lt_or_ge e.scopes.directories.size d
    case inr =>
      refine inStep.same ?_ (congrFun listed d) fun _ _ => rfl
      rw [contents]
      exact ContentView.contentsEnterDirectory (Scopes.placedContents charted.sound) _ _
        (by simpa using known) _
    have unlisted := (congrFun listed d).trans (Scopes.listedBeyond new)
    obtain rfl | beyond := Nat.eq_or_lt_of_le new
    · obtain ⟨d', here, items, entries, written, spells, -⟩ :=
        above (Scopes.directoryCreated created)
      have seen : e.scopes.contentView.seen e.snapshot .includeDirectories = entries := by
        rw [← Scopes.contentSeen, Scopes.contentCurrent charted.current here, written]
      refine inStepUnlisted ?_ spells unlisted
      rw [contents, ← seen, ← Scopes.sizeLedgers]
      exact ContentView.contentsNew ..
    · refine inStepUnlisted ?_ .nothing unlisted
      rw [contents]
      exact Scopes.contentsBeyond (by simpa [ContentView.enterDirectory] using beyond) _

/-- What can happen in a run. Of the directories in `D`, and of those above them, the include
directories are written by `include_directories` only, with words that stand for themselves, and
those of the targets there by nothing else, not even by a variable that new targets start from. All
the rest is free: scopes are opened and closed, directories entered and left. -/
inductive IncludeStep (D : Nat → Prop) (e : Engine) : Engine → Prop where
  | includes (words : List String) (tidy : ∀ d, D d → Command.TidyIn d words e) :
    IncludeStep D e (Command.includeDirectories words e).2
  | declares {command : List String → Step Verdict} (member : command ∈ Command.declaring)
    (words : List String)
    (free : ∀ d, D d → e.scopes.directoryOf e.snapshot = some d → e.Uninitialized) :
    IncludeStep D e (command words e).2
  | edits (id : Nat) {u : ScopeEdit} (own : u.movesFrames = true → id = e.snapshot)
    (sparing : ∀ d, D d → e.scopes.directoryOf id = some d →
      u.change? .includeDirectories = none) :
    IncludeStep D e { e with scopes := u.apply e.scopes id }
  | describes (id : Nat) {f : Directory → Directory}
    (hidden : ∀ x, (f x).ledger = x.ledger ∧ (f x).children = x.children)
    (unlisted : ∀ x, (f x).targetNames = x.targetNames) :
    IncludeStep D e { e with scopes := e.scopes.updateDirectory id f }
  | listFile (id : Nat) (path : String) :
    IncludeStep D e { e with scopes := e.scopes.setListFile id path }
  | retargets {targets : Targets} (change : e.targets.Change targets)
    (sparing : ∀ d, D d → ∀ name ∈ e.scopes.listed d,
      ({ e with targets } : Engine).included? name = e.included? name) :
    IncludeStep D e { e with targets }
  | beside {e' : Engine} (scopes : e'.scopes = e.scopes) (targets : e'.targets = e.targets)
    (seats : e'.seat? = e.seat?) (current : e'.current = e.current) : IncludeStep D e e'
  | opens {o : ScopeOpening} {scopes : Scopes} {id : Nat}
    (created : o.create e.scopes e.snapshot = .ok (scopes, id)) :
    IncludeStep D e (({ e with scopes } : Engine).setSnapshot id)
  | closes {own : Bool} (below : e.scopes.tree.Below own e.snapshot) {scopes : Scopes} {up : Nat}
    (popped : e.scopes.pop e.snapshot = .ok (scopes, up)) :
    IncludeStep D e (({ e with scopes } : Engine).setSnapshot up)
  | adds {scopes : Scopes} {id : Nat} (source binary : String) {f : Directory → Directory}
    (created : e.scopes.createDirectory e.snapshot = .ok (scopes, id))
    (hidden : ∀ x, (f x).ledger = x.ledger ∧ (f x).children = x.children)
    (unlisted : ∀ x, (f x).targetNames = x.targetNames)
    (above : ∀ d above, D d → scopes.directoryOf id = some d →
      e.scopes.directoryOf e.snapshot = some above → D above) :
    IncludeStep D e
      { e with scopes := (scopes.setLocations id source binary).updateDirectory id f }
  | enters {id : Nat} (current : e.scopes.isCurrent id = true) (free : ∀ i, e.seat? i ≠ some id) :
    IncludeStep D e (Runner.enterDirectory id e)
  | leaves (outer : Engine) (placed : outer.current < e.runs.size) :
    IncludeStep D e (Runner.leaveDirectory outer e)

theorem IncludeStep.inStep {D : Nat → Prop} (step : IncludeStep D e e') (charted : e.Charted)
    (inStep : ∀ d, D d → e.InStep d) : e'.Charted ∧ ∀ d, D d → e'.InStep d := by
  have whole (kept : e'.Charted ∧ ∀ d, e.InStep d → e'.InStep d) :
      e'.Charted ∧ ∀ d, D d → e'.InStep d :=
    ⟨kept.1, fun d watched => kept.2 d (inStep d watched)⟩
  cases step with
  | includes words tidy =>
    obtain ⟨charted', kept⟩ := Command.includeDirectoriesInStep charted words
    exact ⟨charted', fun d watched => kept d (inStep d watched) (tidy d watched)⟩
  | declares member words free =>
    obtain ⟨edits, adds⟩ := Command.declaringAdds member words
    obtain ⟨view, kept⟩ := (adds e charted.consistent).inStep charted
    exact ⟨charted.edits (edits e) (view ▸ charted.measured), fun d watched =>
      kept d (inStep d watched) (free d watched)⟩
  | @edits id u own sparing =>
    refine ⟨charted.wrote id own, fun d watched => (inStep d watched).same ?_ ?_ fun _ _ => rfl⟩
    · exact Scopes.contentsElsewhere charted.sound charted.measured u (sparing d watched)
    · exact congrFun (Scopes.listedEdit ..) d
  | describes id hidden unlisted =>
    have current x := congrArg Prod.fst (hidden x).1
    exact whole (charted.unseen (.directory e id (fun x => ⟨current x, (hidden x).2⟩) unlisted)
      (Scopes.sightUpdateDirectory _ _ fun x => (hidden x).1)
      (Scopes.listedUpdate _ _ unlisted) rfl)
  | listFile id path =>
    exact whole (charted.unseen (.one (.listFile id path)) (Scopes.sightSetListFile ..)
      (Scopes.listedRecords (Scopes.recordsSetListFile ..)) rfl)
  | retargets change sparing =>
    exact ⟨charted.edits (.one (.targets change)) charted.measured, fun d watched =>
      (inStep d watched).same rfl rfl (sparing d watched)⟩
  | beside scopes targets seats current =>
    have seated : e'.seat? e'.current = some e.snapshot := by
      rw [seats, current, seatHere charted.placed]
    obtain ⟨run, there, -⟩ := Option.map_eq_some_iff.mp seated
    have placed := (Array.getElem?_eq_some_iff.mp there).1
    exact whole (charted.beside scopes targets (charted.grounded.same scopes seats) placed)
  | opens created => exact whole (charted.opened created)
  | closes below popped => exact whole (charted.closed below popped)
  | adds source binary created hidden unlisted above =>
    obtain ⟨charted', kept⟩ := charted.added source binary created hidden unlisted
    refine ⟨charted', fun d watched => kept d (inStep d watched) fun new => ?_⟩
    obtain ⟨p, -, -, -, -, here⟩ := charted.within
    exact ⟨p.directory, here, inStep _ (above d _ watched new here)⟩
  | enters current free =>
    have grounded := charted.grounded.enterDirectory (Scopes.isCurrentTree.mp current) free
    exact whole (charted.beside rfl rfl grounded (by simp [Runner.enterDirectory]))
  | leaves outer placed =>
    exact whole (charted.beside rfl rfl (charted.grounded.leaveDirectory outer) placed)

theorem chartedStart (options : Options) (platform : Platform) (environment : List (String × String)) :
    (start options platform environment).Charted ∧
      ∀ d, (start options platform environment).InStep d := by
  have consistent := consistentStart options platform environment
  obtain ⟨environment', cache, errorOccurred, same⟩ := startCases options platform environment
  rw [same] at consistent ⊢
  constructor
  case left =>
    exact ⟨.first rfl rfl, Scopes.rootedInitial, Scopes.Reachable.initial.measured, consistent,
      Nat.one_pos⟩
  case right =>
    refine fun d => inStepUnlisted ?_ .nothing (congrFun Scopes.listedInitial d)
    rw [Scopes.viewContentsInitial]
    obtain beyond | first := Nat.lt_or_ge 1 d
    case inl => exact Scopes.contentsBeyond beyond _
    case inr => obtain rfl | rfl := Nat.le_one_iff_eq_zero_or_eq_one.mp first <;> rfl

theorem runInStep {D : Nat → Prop} {options : Options} {platform : Platform}
    {environment : List (String × String)}
    (run : Relation.ReflTransGen (IncludeStep D) (start options platform environment) e) :
    e.Charted ∧ ∀ d, D d → e.InStep d := by
  induction run with
  | refl =>
    obtain ⟨charted, inStep⟩ := chartedStart options platform environment
    exact ⟨charted, fun d _ => inStep d⟩
  | tail _ step ih => exact step.inStep ih.1 ih.2

theorem includesProperty {id : Nat} {directory : Directory}
    (there : e.scopes.directory? id = some directory) :
    e.directoryProperty? id "INCLUDE_DIRECTORIES" =
      some (ListValue.join (e.scopes.content id .includeDirectories)) := by
  have own : e.ownProperty? id directory "INCLUDE_DIRECTORIES" =
      some (ListValue.join (e.scopes.content id .includeDirectories)) := rfl
  simp [directoryProperty?, propertyWithin, there, own]

theorem Charted.includesShown (charted : e.Charted) {directory : Directory}
    (there : e.scopes.directories.get? d = some directory) {items : List String}
    (including : e.Including d items) :
    e.directoryProperty? directory.current "INCLUDE_DIRECTORIES" = some (ListValue.join items) ∧
      ∀ name ∈ directory.targetNames, ∃ t, e.targets.get? name = some t ∧
        (t.property? "INCLUDE_DIRECTORIES").getD "" = ListValue.join items := by
  obtain ⟨entries, written, spells, all⟩ := including
  have ledger : e.scopes.contentView.directories.get? d =
      some (directory.current, directory.contents) := by
    rw [Scopes.getLedger, there]
    rfl
  obtain ⟨lengths, sight⟩ := Scopes.placedContents charted.sound ledger
  obtain ⟨p, live, same⟩ := Option.map_eq_some_iff.mp (e.scopes.getSight _ ▸ sight)
  have inside : e.scopes.directory? directory.current = some directory := by
    rw [Scopes.directory?, live, ← there]
    exact congrArg (e.scopes.directories.get? ·.1) same
  have shown : e.scopes.content directory.current .includeDirectories = entries := by
    rw [ContentView.contentsOf ledger] at written
    exact (e.scopes.contentSeen ..).trans (Contents.mk.inj written).2
  have listed : e.scopes.listed d = directory.targetNames := by
    rw [Scopes.listed, there]
    rfl
  refine ⟨?_, fun name member => ?_⟩
  · rw [includesProperty inside, shown, spells.same]
  · rw [← listed] at member
    obtain ⟨t, known, text⟩ := Option.map_eq_some_iff.mp (all name member)
    refine ⟨t, ?_, ?_⟩
    · rw [Targets.get?, Targets.resolveReal (charted.real member), known]
    · rw [← text, Std.TreeMap.getD_eq_getD_getElem?]
      rfl

/-- Wherever include directories are written by `include_directories` only, with words that stand
for themselves, the targets that a directory lists have what the directory has, whichever came
first. A command more puts its paths in front of that or behind it. -/
theorem targetsIncludeTheSame {D : Nat → Prop} {options : Options} {platform : Platform}
    {environment : List (String × String)}
    (run : Relation.ReflTransGen (IncludeStep D) (start options platform environment) e)
    (watched : D d) {directory : Directory}
    (there : e.scopes.directories.get? d = some directory) :
    ∃ items,
      e.directoryProperty? directory.current "INCLUDE_DIRECTORIES" = some (ListValue.join items) ∧
      (∀ name ∈ directory.targetNames, ∃ t, e.targets.get? name = some t ∧
        (t.property? "INCLUDE_DIRECTORIES").getD "" = ListValue.join items) ∧
      ∀ words, e.scopes.directoryOf e.snapshot = some d → Command.TidyIn d words e →
        (Command.includeDirectories words e).2.directoryProperty? directory.current
          "INCLUDE_DIRECTORIES" = some (ListValue.join (Command.withIncludes words e items)) := by
  obtain ⟨charted, inStep⟩ := runInStep run
  obtain ⟨items, including⟩ := inStep d watched
  obtain ⟨property, targets⟩ := charted.includesShown there including
  refine ⟨items, property, targets, fun words here tidy => ?_⟩
  have charted' := (Command.includeDirectoriesInStep charted words).1
  have added := Command.includeDirectoriesAdds charted here tidy including
  have edits : Edits e (Command.includeDirectories words e).2 :=
    Command.includeDirectoriesEdits words e
  obtain ⟨directory', there', current⟩ := edits.directoryCurrent there
  exact current ▸ (charted'.includesShown there' added).1

theorem executableIncludesAll :
    let top := (Command.includeDirectories ["BEFORE", "first"]
      (Command.addLibrary ["core", "STATIC", "c.c"]
        (Command.includeDirectories ["inc", "SYSTEM", "sys"] (start {} {} [])).2).2).2
    let made := (top.scopes.createDirectory top.snapshot).toOption.getD (top.scopes, 0)
    let scopes := made.1.setLocations made.2 "/s/lib" "/b/lib"
    let below :=
      Runner.enterDirectory made.2 { top with scopes := scopes.updateDirectory made.2 id }
    let e := (Command.includeDirectories ["own"] (Command.addExecutable ["tool", "t.c"] below).2).2
    Relation.ReflTransGen (IncludeStep fun _ => True) (start {} {} []) e ∧
    ∃ directory, e.scopes.directories.get? 2 = some directory ∧ directory.targetNames = ["tool"] ∧
      (∃ items,
        e.directoryProperty? directory.current "INCLUDE_DIRECTORIES" =
          some (ListValue.join items) ∧
        ∀ name ∈ directory.targetNames, ∃ t, e.targets.get? name = some t ∧
          (t.property? "INCLUDE_DIRECTORIES").getD "" = ListValue.join items) ∧
      e.targetProperty? "core" "INCLUDE_DIRECTORIES" = some "/first;/inc;/sys" ∧
      e.targetProperty? "tool" "INCLUDE_DIRECTORIES" = some "/first;/inc;/sys;/s/lib/own" := by
  intro top made scopes below e
  have includes (words : List String) (e : Engine) (clear : Clear e.sourceDir)
      (tidy : ∀ word ∈ words, Command.Tidy word) :
      IncludeStep (fun _ => True) e (Command.includeDirectories words e).2 :=
    .includes words fun _ _ _ => ⟨clear, tidy⟩
  have declares {command : List String → Step Verdict} (member : command ∈ Command.declaring)
      (words : List String) (e : Engine) (none : e.declarations.initializers .target = []) :
      IncludeStep (fun _ => True) e (command words e).2 := by
    refine .declares member words fun _ _ _ source initializes => ?_
    rw [none] at initializes
    cases initializes
  have toTop : Relation.ReflTransGen (IncludeStep fun _ => True) (start {} {} []) top :=
    ((Relation.ReflTransGen.single (includes _ _ (by decide +kernel) (by decide +kernel))).tail
      (declares (by simp [Command.declaring]) _ _ (by decide +kernel))).tail
      (includes _ _ (by decide +kernel) (by decide +kernel))
  have created : top.scopes.createDirectory top.snapshot = .ok (made.1, made.2) := by
    have fine : (top.scopes.createDirectory top.snapshot).toOption.isSome = true := by
      decide +kernel
    have given (x : Except ScopeError (Scopes × Nat)) (fine : x.toOption.isSome = true)
        (other : Scopes × Nat) :
        x = .ok ((x.toOption.getD other).1, (x.toOption.getD other).2) := by
      cases x with
      | error => cases fine
      | ok => rfl
    exact given _ fine (top.scopes, 0)
  obtain ⟨-, current, free⟩ := (runInStep toTop).1.grounded.subdirectory
    (.created "/s/lib" "/b/lib" created (f := id) fun _ => ⟨rfl, rfl⟩)
  have run : Relation.ReflTransGen (IncludeStep fun _ => True) (start {} {} []) e :=
    (((toTop.tail (.adds "/s/lib" "/b/lib" created (fun _ => ⟨rfl, rfl⟩) (fun _ => rfl)
      fun _ _ _ _ _ => trivial)).tail (.enters (Scopes.isCurrentTree.mpr current) free)).tail
      (declares (by simp [Command.declaring]) _ _ (by decide +kernel))).tail
      (includes _ _ (by decide +kernel) (by decide +kernel))
  have checked : (e.scopes.directories.get? 2).map (·.targetNames) = some ["tool"] ∧
      e.targetProperty? "core" "INCLUDE_DIRECTORIES" = some "/first;/inc;/sys" ∧
      e.targetProperty? "tool" "INCLUDE_DIRECTORIES" = some "/first;/inc;/sys;/s/lib/own" := by
    decide +kernel
  obtain ⟨directory, there, names⟩ := Option.map_eq_some_iff.mp checked.1
  obtain ⟨items, property, targets, -⟩ := targetsIncludeTheSame run trivial there
  exact ⟨run, directory, there, names, ⟨items, property, targets⟩, checked.2⟩

end Engine
end CMakeScript
