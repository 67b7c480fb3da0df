import CMakeScript.Proofs.ContentView
import CMakeScript.Proofs.ScopeBrackets
/-! The contents of a directory as its current scope sees them: what came of the edits made there, in
order, since the directory was created. An edit made at another scope of the directory is written
all the same, and shows at the current scope with the next edit of the same kind that is made there,
or once a scope is closed. -/
namespace CMakeScript

/-- Of one kind of contents, what was written in a directory and what its current scope sees. -/
structure Contents where
  whole : List String
  seen : List String
  deriving DecidableEq

namespace ContentView

variable {v : ContentView}

def contents (v : ContentView) (d : Nat) (kind : ContentKind) : Contents :=
  match v.directories.get? d with
  | some (x, logs) => ⟨(logs.get kind).read, v.seen x kind⟩
  | none => ⟨[], []⟩

theorem contentsOf {d x : Nat} {logs : PerContent ContentLog}
    (there : v.directories.get? d = some (x, logs)) (kind : ContentKind) :
    v.contents d kind = ⟨(logs.get kind).read, v.seen x kind⟩ := by
  simp [contents, there]

def Placed (v : ContentView) : Prop :=
  ∀ ⦃d x logs⦄, v.directories.get? d = some (x, logs) → ∃ lengths, v.scopes.get? x = some (d, lengths)

def Measured (v : ContentView) : Prop :=
  ∀ ⦃id d lengths⦄, v.scopes.get? id = some (d, lengths) →
    ∃ x logs, v.directories.get? d = some (x, logs) ∧
      ∀ kind, lengths.get kind ≤ (logs.get kind).length

theorem contentsKept {v' : ContentView} {d : Nat} {kind : ContentKind}
    (placed : v.Placed)
    (there : v'.directories.get? d = v.directories.get? d)
    (here : ∀ x lengths, v.scopes.get? x = some (d, lengths) →
      ∀ logs, v.directories.get? d = some (x, logs) → ∃ lengths', v'.scopes.get? x = some (d, lengths') ∧
        lengths'.get kind = lengths.get kind) :
    v'.contents d kind = v.contents d kind := by
  cases found : v.directories.get? d with
  | none => simp [contents, there, found]
  | some ledger =>
    obtain ⟨x, logs⟩ := ledger
    obtain ⟨lengths, live⟩ := placed found
    obtain ⟨lengths', live', same⟩ := here x lengths live logs found
    rw [contentsOf (there.trans found), contentsOf found, seenOf live' (there.trans found),
      seenOf live found, same]

section Enter

variable {origin : Nat} {sight : Nat × PerContent Nat}

theorem Measured.enter (measured : v.Measured) (found : v.scopes.get? origin = some sight) :
    (v.enter origin sight).Measured := by
  intro id d lengths here
  obtain ⟨x, logs, there, bound⟩ : ∃ x logs, v.directories.get? d = some (x, logs) ∧
      ∀ kind, lengths.get kind ≤ (logs.get kind).length := by
    rw [ContentView.enter, Arena.getPush] at here
    split at here
    · cases here
      exact measured found
    · exact measured here
  rw [ContentView.enter, Arena.getModify, there]
  split
  · exact ⟨_, logs, rfl, bound⟩
  · exact ⟨x, logs, rfl, bound⟩

theorem contentsEnter (placed : v.Placed) (found : v.scopes.get? origin = some sight)
    {logs : PerContent ContentLog} (current : v.directories.get? sight.1 = some (origin, logs))
    (d : Nat) (kind : ContentKind) :
    (v.enter origin sight).contents d kind = v.contents d kind := by
  by_cases same : d = sight.1
  · subst same
    have there : (v.enter origin sight).directories.get? sight.1 =
        some (v.scopes.size + 1, logs) := by
      rw [ContentView.enter, Arena.getModify, if_pos rfl, current]
      rfl
    have here : (v.enter origin sight).scopes.get? (v.scopes.size + 1) = some sight := by
      rw [ContentView.enter, Arena.getPush, if_pos rfl]
    rw [contentsOf there, contentsOf current, seenOf here there, seenOf found current]
  · refine contentsKept placed ?_ fun x lengths live _ _ => ⟨lengths, ?_, rfl⟩
    · rw [ContentView.enter, Arena.getModify, if_neg same]
    · have := (Arena.getBounds live).2
      rw [ContentView.enter, Arena.getPush, if_neg (by omega), live]

end Enter

theorem Measured.enterDirectory (measured : v.Measured) (origin outside : Nat) :
    (v.enterDirectory origin outside).Measured := by
  intro id d lengths here
  rw [ContentView.enterDirectory, Arena.getPush] at here
  rw [ContentView.enterDirectory, Arena.getPush]
  split at here
  · cases here
    rw [if_pos rfl]
    exact ⟨_, _, rfl, by simp⟩
  · obtain ⟨x, logs, there, bound⟩ := measured here
    have := (Arena.getBounds there).2
    rw [if_neg (by omega)]
    exact ⟨x, logs, there, bound⟩

theorem contentsEnterDirectory (placed : v.Placed) (origin outside : Nat) {d : Nat}
    (known : d ≤ v.directories.size) (kind : ContentKind) :
    (v.enterDirectory origin outside).contents d kind = v.contents d kind := by
  refine contentsKept placed ?_ fun x lengths live _ _ => ⟨lengths, ?_, rfl⟩
  · rw [ContentView.enterDirectory, Arena.getPush, if_neg (by omega)]
  · have := (Arena.getBounds live).2
    rw [ContentView.enterDirectory, Arena.getPush, if_neg (by omega), live]

theorem contentsNew (origin outside : Nat) (kind : ContentKind) :
    (v.enterDirectory origin outside).contents (v.directories.size + 1) kind =
      ⟨v.seen origin kind, v.seen origin kind⟩ := by
  have there : (v.enterDirectory origin outside).directories.get? (v.directories.size + 1) =
      some (v.scopes.size + 1, .ofFn fun kind => (v.seen origin kind).map some) := by
    rw [ContentView.enterDirectory, Arena.getPush, if_pos rfl]
  have here : (v.enterDirectory origin outside).scopes.get? (v.scopes.size + 1) =
      some (v.directories.size + 1, .ofFn fun kind => (v.seen origin kind).length) := by
    rw [ContentView.enterDirectory, Arena.getPush, if_pos rfl]
  rw [contentsOf there, seenOf here there, PerContent.getOfFn, PerContent.getOfFn,
    ContentLog.visibleRead, List.take_of_length_le (by simp), ContentLog.readValues]

section Log

variable {id e y : Nat} {lengths : PerContent Nat} {logs : PerContent ContentLog}

theorem Measured.log (measured : v.Measured) (here : v.scopes.get? id = some (e, lengths))
    (there : v.directories.get? e = some (y, logs)) (kind : ContentKind) (entries : ContentLog) :
    (v.log id e kind (logs.get kind ++ entries)).Measured := by
  intro other d lengths' found
  rw [ContentView.log, Arena.getModify] at found
  rw [ContentView.log, Arena.getModify]
  split at found
  case isTrue same =>
    subst same
    rw [here] at found
    cases found
    obtain ⟨x, logs', there', bound⟩ := measured here
    rw [there] at there'
    cases there'
    rw [if_pos rfl, there]
    refine ⟨_, _, rfl, fun k => ?_⟩
    rw [PerContent.getSet, PerContent.getSet]
    split
    · exact Nat.le_refl _
    · exact bound k
  case isFalse =>
    obtain ⟨x, logs', there', bound⟩ := measured found
    split
    case isTrue same =>
      subst same
      rw [there] at there'
      cases there'
      rw [there]
      refine ⟨_, _, rfl, fun k => ?_⟩
      have within := bound k
      rw [PerContent.getSet]
      split
      case isTrue same =>
        subst same
        rw [List.length_append]
        omega
      case isFalse => exact within
    case isFalse => exact ⟨x, logs', there', bound⟩

theorem contentsLog (placed : v.Placed) (measured : v.Measured)
    (here : v.scopes.get? id = some (e, lengths)) (there : v.directories.get? e = some (y, logs))
    (written : ContentKind) (entries : ContentLog) (d : Nat) (kind : ContentKind) :
    (v.log id e written (logs.get written ++ entries)).contents d kind =
      if d = e ∧ kind = written then
        let whole := entries.foldl ContentLog.write (v.contents d kind).whole
        ⟨whole, if id = y then whole else (v.contents d kind).seen⟩
      else v.contents d kind := by
  by_cases inside : d = e
  case neg =>
    rw [if_neg fun both => inside both.1]
    refine contentsKept placed ?_ fun x lengths' live _ _ => ⟨lengths', ?_, rfl⟩
    · rw [ContentView.log, Arena.getModify, if_neg inside]
    · rw [ContentView.log, Arena.getModify, if_neg, live]
      rintro rfl
      rw [here] at live
      cases live
      exact inside rfl
  case pos =>
    subst inside
    let whole := logs.get written ++ entries
    obtain ⟨lengths', live⟩ := placed there
    have there' : (v.log id d written whole).directories.get? d =
        some (y, logs.set written whole) := by
      rw [ContentView.log, Arena.getModify, if_pos rfl, there]
      rfl
    have live' : (v.log id d written whole).scopes.get? y =
        some (d, if id = y then lengths'.set written whole.length else lengths') := by
      rw [ContentView.log, Arena.getModify, live]
      by_cases same : y = id
      · simp [same]
      · have other : id ≠ y := fun again => same again.symm
        simp [same, other]
    obtain ⟨_, logs', again, bound⟩ := measured live
    rw [there] at again
    cases again
    rw [contentsOf there', contentsOf there, seenOf live' there', seenOf live there,
      PerContent.getSet]
    by_cases same : kind = written
    · subst same
      simp only [whole, true_and, if_true, ContentLog.readAppend]
      -- The current scope of the directory sees the new entries only if it wrote them itself.
      split
      · rw [PerContent.getSet, if_pos rfl, ContentLog.visibleWhole, ContentLog.readAppend]
      · rw [ContentLog.visibleAppend (bound kind)]
    · have outside : ¬(d = d ∧ kind = written) := fun both => same both.2
      rw [if_neg same, if_neg outside]
      split
      · rw [PerContent.getSet, if_neg same]
      · rfl

end Log

section Resume

variable {up e y : Nat} {lengths : PerContent Nat} {logs : PerContent ContentLog}

theorem Measured.resume (measured : v.Measured) (above : v.scopes.get? up = some (e, lengths))
    (there : v.directories.get? e = some (y, logs)) : (v.resume up e logs).Measured := by
  intro id d lengths' found
  rw [ContentView.resume, Arena.getModify] at found
  obtain ⟨x, logs', there', bound⟩ : ∃ x logs', v.directories.get? d = some (x, logs') ∧
      ∀ kind, lengths'.get kind ≤ (logs'.get kind).length := by
    split at found
    case isTrue same =>
      subst same
      rw [above] at found
      cases found
      exact ⟨y, logs, there, by simp⟩
    case isFalse => exact measured found
  rw [ContentView.resume, Arena.getModify, there']
  split
  · exact ⟨_, logs', rfl, bound⟩
  · exact ⟨x, logs', rfl, bound⟩

theorem contentsResume (placed : v.Placed) (above : v.scopes.get? up = some (e, lengths))
    (there : v.directories.get? e = some (y, logs)) (d : Nat) (kind : ContentKind) :
    (v.resume up e logs).contents d kind =
      if d = e then ⟨(v.contents d kind).whole, (v.contents d kind).whole⟩
      else v.contents d kind := by
  split
  case isTrue inside =>
    subst inside
    have there' : (v.resume up d logs).directories.get? d = some (up, logs) := by
      rw [ContentView.resume, Arena.getModify, if_pos rfl, there]
      rfl
    have above' : (v.resume up d logs).scopes.get? up =
        some (d, .ofFn fun kind => (logs.get kind).length) := by
      rw [ContentView.resume, Arena.getModify, if_pos rfl, above]
      rfl
    rw [contentsOf there', contentsOf there, seenOf above' there', PerContent.getOfFn,
      ContentLog.visibleWhole]
  case isFalse outside =>
    refine contentsKept placed ?_ fun x lengths' live _ _ => ⟨lengths', ?_, rfl⟩
    · rw [ContentView.resume, Arena.getModify, if_neg outside]
    · rw [ContentView.resume, Arena.getModify, if_neg, live]
      rintro rfl
      rw [above] at live
      cases live
      exact outside rfl

theorem Measured.pop (measured : v.Measured) {id : Nat} (last : v.scopes.isLast id = true) :
    ({ v with scopes := (v.scopes.pop id).1 } : ContentView).Measured := by
  intro other d lengths found
  rw [Arena.getPop last] at found
  split at found
  · cases found
  · exact measured found

theorem contentsPop {id : Nat} (last : v.scopes.isLast id = true)
    (placed : ({ v with scopes := (v.scopes.pop id).1 } : ContentView).Placed) (d : Nat)
    (kind : ContentKind) :
    ({ v with scopes := (v.scopes.pop id).1 } : ContentView).contents d kind = v.contents d kind := by
  have kept : v.contents d kind =
      ({ v with scopes := (v.scopes.pop id).1 } : ContentView).contents d kind := by
    refine contentsKept placed rfl fun x lengths live _ _ => ⟨lengths, ?_, rfl⟩
    rw [Arena.getPop last] at live
    split at live
    · cases live
    · exact live
  exact kept.symm

end Resume
end ContentView

namespace ScopeEdit

def change? (kind : ContentKind) : ScopeEdit → Option (List String → List String)
  | appendContent k value =>
    if k = kind ∧ value.isEmpty = false then some fun seen => seen ++ [value] else none
  | setContent k value =>
    if k = kind then some fun _ => if value.isEmpty then [] else [value] else none
  | clearContent k => if k = kind then some fun _ => [] else none
  | _ => none

def entries? : ScopeEdit → Option (ContentKind × ContentLog)
  | appendContent k value => if value.isEmpty then none else some (k, [some value])
  | setContent k value => some (k, if value.isEmpty then [none] else [none, some value])
  | clearContent k => some (k, [none])
  | _ => none

theorem changeEntries (kind : ContentKind) (e : ScopeEdit) :
    e.change? kind = match e.entries? with
      | some (k, entries) =>
        if k = kind then some fun seen => entries.foldl ContentLog.write seen else none
      | none => none := by
  cases e with
  | appendContent k value => cases empty : value.isEmpty <;> simp [change?, entries?, empty, ContentLog.write]
  | setContent k value => cases empty : value.isEmpty <;> simp [change?, entries?, empty, ContentLog.write]
  | _ => rfl

theorem applyEntries (e : ScopeEdit) (s : Scopes) (id : Nat) :
    match e.entries? with
    | some (k, entries) => e.apply s id = s.logContent id k entries
    | none => (e.apply s id).contentView = s.contentView := by
  cases e with
  | define => exact Scopes.sightDefine ..
  | undefine => exact Scopes.sightUndefine ..
  | raise name value =>
    simp only [entries?, apply]
    cases raised : s.raise? id name value with
    | none => rfl
    | some s' => exact Scopes.sightRaise raised
  | setPolicy p status =>
    simp only [entries?, apply, Scopes.setPolicy]
    split <;> rfl
  | pushPolicy settings weak =>
    simp only [entries?, apply]
    split
    case h_1 pushed => exact Scopes.sightPushPolicy pushed
    case h_2 => rfl
  | popPolicy =>
    simp only [entries?, apply]
    split
    case h_1 popped => exact Scopes.sightPopPolicy popped
    case h_2 => rfl
  | markPolicyScope =>
    simp only [entries?, apply]
    split
    case h_1 marked => exact Scopes.sightMarkPolicyScope marked
    case h_2 => rfl
  | appendContent k value =>
    cases empty : value.isEmpty <;> simp [entries?, apply, Scopes.appendContent, empty]
  | setContent => rfl
  | clearContent => rfl

end ScopeEdit

namespace Scopes

def directoryOf (s : Scopes) (id : Nat) : Option Nat := (s.snapshots.get? id).map (·.directory)

theorem directoryMeasured {s : Scopes} (measured : s.contentView.Measured) {id : Nat}
    {here : Snapshot} (found : s.snapshots.get? id = some here) :
    ∃ directory, s.directories.get? here.directory = some directory ∧
      s.contentView.scopes.get? id = some (here.directory, here.contentLengths) ∧
      s.contentView.directories.get? here.directory =
        some (directory.current, directory.contents) := by
  have sight : s.contentView.scopes.get? id = some (here.directory, here.contentLengths) := by
    rw [getSight, found]
    rfl
  obtain ⟨x, logs, ledger, -⟩ := measured sight
  obtain ⟨directory, there, same⟩ := Option.map_eq_some_iff.mp (s.getLedger _ ▸ ledger)
  cases same
  exact ⟨directory, there, sight, ledger⟩

theorem placedContents {s : Scopes} (sound : s.tree.Sound) : s.contentView.Placed := by
  intro d x logs found
  rw [getLedger] at found
  obtain ⟨directory, there, same⟩ := Option.map_eq_some_iff.mp found
  cases same
  have inTree : s.tree.directories.get? d = some (directory.current, directory.children) := by
    rw [directoryTree, there]
    rfl
  obtain ⟨p, live, inside⟩ := sound.current inTree
  rw [getTree] at live
  obtain ⟨here, found, rfl⟩ := Option.map_eq_some_iff.mp live
  refine ⟨here.contentLengths, ?_⟩
  rw [getSight, found, ← inside]
  rfl

end Scopes

def Contents.after (d : Nat) (kind : ContentKind) (s : Scopes) (c : Contents) : ScopeUse → Contents
  | .edit id e =>
    match e.change? kind with
    | some change =>
      if s.directoryOf id = some d then
        ⟨change c.whole, if s.isCurrent id then change c.whole else c.seen⟩
      else c
    | none => c
  | .leave id =>
    match s.pop id with
    | .ok (_, up) => if s.directoryOf up = some d then ⟨c.whole, c.whole⟩ else c
    | .error _ => c
  | _ => c

def ScopeUse.OpensCurrent (s : Scopes) : ScopeUse → Prop
  | enter origin _ => s.isCurrent origin = true
  | _ => True

instance (s : Scopes) (u : ScopeUse) : Decidable (u.OpensCurrent s) := by
  unfold ScopeUse.OpensCurrent
  cases u <;> infer_instance

namespace Scopes

variable {s : Scopes}

theorem contentsEdit (placed : s.contentView.Placed) (measured : s.contentView.Measured) (id : Nat)
    (e : ScopeEdit) : (e.apply s id).contentView.Measured ∧
      ∀ d kind, (e.apply s id).contentView.contents d kind =
        (s.contentView.contents d kind).after d kind s (.edit id e) := by
  have applied := e.applyEntries s id
  simp only [Contents.after, e.changeEntries]
  cases written : e.entries? with
  | none =>
    simp only [written] at applied
    rw [applied]
    exact ⟨measured, fun _ _ => rfl⟩
  | some write =>
    obtain ⟨k, entries⟩ := write
    simp only [written] at applied
    rw [applied]
    cases found : s.snapshots.get? id with
    | none =>
      have same : s.logContent id k entries = s := by simp [logContent, found]
      rw [same]
      refine ⟨measured, fun d kind => ?_⟩
      by_cases ofKind : k = kind <;> simp [directoryOf, found, ofKind]
    | some here =>
      obtain ⟨directory, there, sight, ledger⟩ := directoryMeasured measured found
      rw [sightLog found there]
      refine ⟨measured.log sight ledger k entries, fun d kind => ?_⟩
      rw [ContentView.contentsLog placed measured sight ledger]
      have current : s.isCurrent id = true ↔ id = directory.current := by
        rw [isCurrentIff, eq_comm]
        constructor
        · rintro ⟨p, d, known, within, same⟩
          cases found.symm.trans known
          cases there.symm.trans within
          exact same
        · exact fun same => ⟨here, directory, found, there, same⟩
      by_cases inside : here.directory = d
      · by_cases ofKind : k = kind <;>
          simp [directoryOf, found, inside, ofKind, current, eq_comm]
      · have outside : ¬d = here.directory := fun same => inside same.symm
        by_cases ofKind : k = kind <;> simp [directoryOf, found, inside, outside, ofKind]

theorem contentsLeave (sound : s.tree.Sound) (measured : s.contentView.Measured) (id : Nat) :
    ((ScopeUse.leave id).apply s).contentView.Measured ∧
      ∀ d kind, ((ScopeUse.leave id).apply s).contentView.contents d kind =
        (s.contentView.contents d kind).after d kind s (.leave id) := by
  have placed := placedContents sound
  have sound' := ScopeUse.soundApply sound (.leave id)
  simp only [ScopeUse.apply, Contents.after] at sound' ⊢
  cases popped : s.pop id with
  | error error => exact ⟨measured, fun _ _ => rfl⟩
  | ok result =>
    obtain ⟨s', up⟩ := result
    simp only [popped] at sound'
    have placed' := placedContents sound'
    obtain ⟨inner, outer, _, -, -, -, above, rfl⟩ := popCases popped
    obtain ⟨directory, there, sight, ledger⟩ := directoryMeasured measured above
    have resumed : (s.resume up outer).contentView =
        s.contentView.resume up outer.directory directory.contents := sightResume there
    have contents (d : Nat) (kind : ContentKind) :
        (s.contentView.resume up outer.directory directory.contents).contents d kind =
          if s.directoryOf up = some d then
            ⟨(s.contentView.contents d kind).whole, (s.contentView.contents d kind).whole⟩
          else s.contentView.contents d kind := by
      rw [ContentView.contentsResume placed sight ledger]
      simp [directoryOf, above, eq_comm]
    have measured := measured.resume sight ledger
    dsimp only
    obtain same | ⟨-, last, same⟩ := sightReclaim (s.resume up outer) id inner outer
    · rw [same, resumed]
      exact ⟨measured, contents⟩
    · rw [same] at placed' ⊢
      rw [resumed] at last placed' ⊢
      refine ⟨measured.pop last, fun d kind => ?_⟩
      rw [ContentView.contentsPop last placed', contents]

theorem contentsApply (sound : s.tree.Sound) (measured : s.contentView.Measured) (u : ScopeUse) :
    (u.apply s).contentView.Measured ∧ (u.OpensCurrent s → ∀ d ≤ s.directories.size, ∀ kind,
      (u.apply s).contentView.contents d kind = (s.contentView.contents d kind).after d kind s u) := by
  have placed := placedContents sound
  cases u with
  | enter origin o =>
    rw [ScopeUse.apply]
    split
    case h_1 created =>
      obtain ⟨sight, found, -, view⟩ := sightCreate created
      rw [view]
      refine ⟨measured.enter found, fun current d _ kind => ?_⟩
      obtain ⟨p, directory, live, there, rfl⟩ := isCurrentIff.mp current
      rw [getSight, live] at found
      cases found
      have current : s.contentView.directories.get? p.sight.1 =
          some (directory.current, directory.contents) := by
        rw [getLedger, show p.sight.1 = p.directory from rfl, there]
        rfl
      refine ContentView.contentsEnter placed ?_ current d kind
      rw [getSight, live]
      rfl
    case h_2 => exact ⟨measured, fun _ _ _ _ => rfl⟩
  | enterDirectory origin =>
    rw [ScopeUse.apply]
    split
    case h_1 created =>
      obtain ⟨sight, found, -, view⟩ := sightCreateDirectory created
      rw [view]
      refine ⟨measured.enterDirectory origin sight.1, fun _ d known kind => ?_⟩
      exact ContentView.contentsEnterDirectory placed origin sight.1 (by simpa using known) kind
    case h_2 => exact ⟨measured, fun _ _ _ _ => rfl⟩
  | leave id =>
    obtain ⟨measured, contents⟩ := contentsLeave sound measured id
    exact ⟨measured, fun _ d _ kind => contents d kind⟩
  | edit id e =>
    obtain ⟨measured, contents⟩ := contentsEdit placed measured id e
    exact ⟨measured, fun _ d _ kind => contents d kind⟩
  | setListFile id path =>
    rw [ScopeUse.apply, sightSetListFile]
    exact ⟨measured, fun _ _ _ _ => rfl⟩
  | setLocations id source binary =>
    rw [ScopeUse.apply, sightSetLocations]
    exact ⟨measured, fun _ _ _ _ => rfl⟩
  | describeDirectory id properties targetNames project =>
    rw [ScopeUse.apply, sightUpdateDirectory]
    · exact ⟨measured, fun _ _ _ _ => rfl⟩
    · exact fun _ => rfl

theorem viewContentsInitial : initial.contentView =
    ⟨⟨#[(0, (1, .ofFn fun _ => 0))]⟩, ⟨#[(0, (1, .ofFn fun _ => []))]⟩⟩ := by
  rw [initial, createBase, sightDefineDefaults]
  simp [contentView, modifyDirectory, Arena.push, Arena.map, Arena.modify, Arena.empty,
    Snapshot.sight, Directory.ledger]

theorem Reachable.measured (reachable : s.Reachable) : s.contentView.Measured := by
  induction reachable with
  | initial =>
    rw [viewContentsInitial]
    intro id d lengths found
    obtain ⟨rfl, same⟩ := Arena.nodeSingle (Arena.getIffNode.mp found)
    cases same
    exact ⟨1, _, rfl, by simp⟩
  | use before u ih => exact (contentsApply before.sound ih u).1

inductive Begins : Scopes → Nat → (ContentKind → List String) → Prop where
  | base : Begins initial 1 fun _ => []
  | directory {s t : Scopes} {origin id d : Nat} (reachable : s.Reachable)
      (created : s.createDirectory origin = .ok (t, id)) (inside : t.directoryOf id = some d) :
      Begins t d (s.content origin)

def contentsAfter (d : Nat) (kind : ContentKind) : Scopes → Contents → List ScopeUse → Contents
  | _, c, [] => c
  | s, c, u :: rest => contentsAfter d kind (u.apply s) (c.after d kind s u) rest

theorem directoryOfContents {d : Nat} {x : Nat × PerContent ContentLog}
    (found : s.contentView.directories.get? d = some x) :
    ∃ directory, s.directories.get? d = some directory := by
  rw [getLedger] at found
  obtain ⟨directory, there, -⟩ := Option.map_eq_some_iff.mp found
  exact ⟨directory, there⟩

theorem Begins.contents {d : Nat} {start : ContentKind → List String} (begins : Begins s d start) :
    s.Reachable ∧ (∃ directory, s.directories.get? d = some directory) ∧
      ∀ kind, s.contentView.contents d kind = ⟨start kind, start kind⟩ := by
  cases begins with
  | base =>
    have view := viewContentsInitial
    refine ⟨.initial, directoryOfContents (x := (1, .ofFn fun _ => [])) ?_, fun kind => ?_⟩
    · rw [view]
      rfl
    · rw [view]
      cases kind <;> rfl
  | @directory s₀ t origin id _ reachable created inside =>
    have after : (ScopeUse.enterDirectory origin).apply s₀ = s := by rw [ScopeUse.apply, created]
    obtain ⟨sight, -, new, view⟩ := sightCreateDirectory created
    have here : s.contentView.scopes.get? id = some (s₀.contentView.directories.size + 1,
        .ofFn fun kind => (s₀.contentView.seen origin kind).length) := by
      rw [view, new, ContentView.enterDirectory, Arena.getPush, if_pos rfl]
    rw [getSight] at here
    obtain ⟨p, live, same⟩ := Option.map_eq_some_iff.mp here
    have fresh : d = s₀.contentView.directories.size + 1 := by
      rw [directoryOf, live] at inside
      exact (Option.some.inj inside).symm.trans (Prod.mk.inj same).1
    subst fresh
    refine ⟨after ▸ reachable.use _, directoryOfContents (x := (s₀.contentView.scopes.size + 1,
      .ofFn fun kind => (s₀.contentView.seen origin kind).map some)) ?_, fun kind => ?_⟩
    · rw [view, ContentView.enterDirectory, Arena.getPush, if_pos rfl]
    · rw [view, ContentView.contentsNew, ← contentSeen]

theorem directoriesMove {t t' : ScopeTree} (move : t.Move t') :
    t.directories.size ≤ t'.directories.size := by
  cases move with
  | stay => exact Nat.le_refl _
  | enter => simp [ScopeTree.enter]
  | enterDirectory => simp [ScopeTree.enterDirectory]
  | leave => simp

theorem directoriesApply (u : ScopeUse) (s : Scopes) :
    s.directories.size ≤ (u.apply s).directories.size := by
  have size (s : Scopes) : s.tree.directories.size = s.directories.size := Arena.sizeMap ..
  rw [← size, ← size]
  exact directoriesMove (u.moves s)

theorem contentsUses (reachable : s.Reachable) {d : Nat} (known : d ≤ s.directories.size)
    {sequence : List ScopeUse} (obeys : Obeys ScopeUse.OpensCurrent s sequence) (kind : ContentKind) :
    d ≤ (s.uses sequence).directories.size ∧
      (s.uses sequence).contentView.contents d kind =
        contentsAfter d kind s (s.contentView.contents d kind) sequence := by
  induction sequence generalizing s with
  | nil => exact ⟨known, rfl⟩
  | cons u rest ih =>
    have step := (contentsApply reachable.sound reachable.measured u).2 obeys.1 d known kind
    have grown := directoriesApply u s
    rw [contentsAfter, ← step]
    exact ih (reachable.use u) (by omega) obeys.2

def currentChange? (d : Nat) (kind : ContentKind) (s : Scopes) :
    ScopeUse → Option (List String → List String)
  | .edit id e => if s.directoryOf id = some d ∧ s.isCurrent id = true then e.change? kind else none
  | _ => none

def currentChanges (d : Nat) (kind : ContentKind) :
    Scopes → List ScopeUse → List (List String → List String)
  | _, [] => []
  | s, u :: rest => (currentChange? d kind s u).toList ++ currentChanges d kind (u.apply s) rest

end Scopes

/-- The contents of directory `d` are changed at its current scope only. -/
def ScopeUse.ChangesCurrent (d : Nat) (kind : ContentKind) (s : Scopes) : ScopeUse → Prop
  | edit id e => (e.change? kind).isSome = true → s.directoryOf id = some d → s.isCurrent id = true
  | _ => True

instance (d : Nat) (kind : ContentKind) (s : Scopes) (u : ScopeUse) :
    Decidable (u.ChangesCurrent d kind s) := by
  unfold ScopeUse.ChangesCurrent
  cases u <;> infer_instance

namespace Scopes

variable {s : Scopes}

theorem currentAfter {d : Nat} {kind : ContentKind} {u : ScopeUse}
    (current : u.ChangesCurrent d kind s) (seen : List String) :
    let seen' := (currentChange? d kind s u).toList.foldl (fun acc change => change acc) seen
    Contents.after d kind s ⟨seen, seen⟩ u = ⟨seen', seen'⟩ := by
  cases u with
  | edit id e =>
    simp only [Contents.after, currentChange?]
    cases changed : e.change? kind with
    | none => simp
    | some change =>
      by_cases inside : s.directoryOf id = some d
      · have atCurrent := current (by rw [changed]; rfl) inside
        simp [inside, atCurrent]
      · simp [inside]
  | leave id =>
    simp only [Contents.after, currentChange?]
    split
    · split <;> rfl
    · rfl
  | _ => rfl

theorem currentContents {d : Nat} {kind : ContentKind} {sequence : List ScopeUse}
    (current : Obeys (ScopeUse.ChangesCurrent d kind) s sequence) (seen : List String) :
    (contentsAfter d kind s ⟨seen, seen⟩ sequence).seen =
      (currentChanges d kind s sequence).foldl (fun acc change => change acc) seen := by
  induction sequence generalizing s seen with
  | nil => rfl
  | cons u rest ih =>
    rw [contentsAfter, currentAfter current.1, currentChanges, List.foldl_append, ih current.2]

/-- Scopes being opened at the current scope of their directory, that scope sees what came of the
edits since the directory was created. If all of them were made at the then current scope, that is
what they come to one after another, starting from what was seen where the directory was created. -/
theorem contentsFollowEdits {d : Nat} {start : ContentKind → List String}
    (begins : Begins s d start) {sequence : List ScopeUse}
    (obeys : Obeys ScopeUse.OpensCurrent s sequence) (kind : ContentKind) :
    ∃ directory, (s.uses sequence).directories.get? d = some directory ∧
      (s.uses sequence).content directory.current kind =
        (contentsAfter d kind s ⟨start kind, start kind⟩ sequence).seen ∧
      (Obeys (ScopeUse.ChangesCurrent d kind) s sequence →
        (s.uses sequence).content directory.current kind =
          (currentChanges d kind s sequence).foldl (fun acc change => change acc) (start kind)) := by
  obtain ⟨reachable, ⟨first, found⟩, started⟩ := begins.contents
  have bounds := Arena.getBounds found
  obtain ⟨known, contents⟩ := contentsUses reachable bounds.2 obeys kind
  obtain ⟨⟨up, directory⟩, there⟩ :=
    Option.isSome_iff_exists.mp (Arena.containsIff.mpr ⟨bounds.1, known⟩)
  have live := Arena.getOfNode there
  have ledger : (s.uses sequence).contentView.directories.get? d =
      some (directory.current, directory.contents) := by
    rw [getLedger, live]
    rfl
  rw [started, ContentView.contentsOf ledger, ← contentSeen] at contents
  have seen := congrArg Contents.seen contents
  refine ⟨directory, live, seen, fun current => ?_⟩
  rw [← currentContents current]
  exact seen

def writtenOutside : List ScopeUse :=
  [.enter 1 (.functionCall "f"), .edit 1 (.appendContent .includeDirectories "x"),
    .edit 2 (.appendContent .includeDirectories "y")]

theorem writtenOutsideShows : Obeys ScopeUse.OpensCurrent initial writtenOutside ∧
    (initial.uses writtenOutside).isCurrent 2 = true ∧
    (initial.uses writtenOutside).content 2 .includeDirectories = ["x", "y"] ∧
    (currentChanges 1 .includeDirectories initial writtenOutside).foldl
      (fun acc change => change acc) [] = ["y"] := by
  decide +kernel

def writtenInBlock : List ScopeUse :=
  [.edit 1 (.setContent .compileOptions "-a"), .enter 1 (.functionCall "f"),
    .edit 2 (.appendContent .compileOptions "-b")]

def subdirectoryWritten : Scopes := (ScopeUse.enterDirectory 2).apply (initial.uses writtenInBlock)

def writtenBelow : List ScopeUse :=
  [.enter 3 .variableScope, .edit 4 (.appendContent .compileOptions "-c"), .leave 4,
    .edit 2 (.clearContent .compileOptions), .edit 3 (.appendContent .compileOptions "-d")]

theorem writtenBelowShows :
    Begins subdirectoryWritten 2 ((initial.uses writtenInBlock).content 2) ∧
    Obeys ScopeUse.OpensCurrent subdirectoryWritten writtenBelow ∧
    Obeys (ScopeUse.ChangesCurrent 2 .compileOptions) subdirectoryWritten writtenBelow ∧
    ∃ directory, (subdirectoryWritten.uses writtenBelow).directories.get? 2 = some directory ∧
      (subdirectoryWritten.uses writtenBelow).content directory.current .compileOptions =
        ["-a", "-b", "-c", "-d"] := by
  have live : ((initial.uses writtenInBlock).snapshots.get? 2).isSome = true := by decide +kernel
  obtain ⟨here, live⟩ := Option.isSome_iff_exists.mp live
  have begins : Begins subdirectoryWritten 2 ((initial.uses writtenInBlock).content 2) := by
    cases created : (initial.uses writtenInBlock).createDirectory 2 with
    | error error => simp [createDirectoryOf live] at created
    | ok result =>
      obtain ⟨t, id⟩ := result
      obtain rfl : subdirectoryWritten = t := by
        rw [subdirectoryWritten, ScopeUse.apply, created]
      obtain ⟨-, -, new, -⟩ := sightCreateDirectory created
      obtain rfl : id = 3 := new.trans (by decide +kernel)
      exact .directory (Reachable.initial.uses _) created (by decide +kernel)
  have obeys : Obeys ScopeUse.OpensCurrent subdirectoryWritten writtenBelow := by decide +kernel
  have current : Obeys (ScopeUse.ChangesCurrent 2 .compileOptions) subdirectoryWritten writtenBelow := by
    decide +kernel
  have changed : (currentChanges 2 .compileOptions subdirectoryWritten writtenBelow).foldl
      (fun acc change => change acc) ((initial.uses writtenInBlock).content 2 .compileOptions) =
      ["-a", "-b", "-c", "-d"] := by decide +kernel
  obtain ⟨directory, there, -, seen⟩ := contentsFollowEdits begins obeys .compileOptions
  exact ⟨begins, obeys, current, directory, there, (seen current).trans changed⟩

end Scopes
end CMakeScript
