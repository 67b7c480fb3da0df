import CMakeScript.Proofs.DeferredOrder
/-! Exits that deferred calls ask for. Such an exit ends the call, but not the run: the calls after
it are run all the same. It makes for the answer of the script only if it has left a file by then. -/
namespace CMakeScript

/-- What a log tells of the exits of a script. -/
structure ExitRecord where
  underWay : Option Int := none
  taken : Option Int := none
  pending : Bool := false
  deriving DecidableEq, Repr

theorem Outcome.transferExit {o : Outcome} {code : Int}
    (exit : o.transfer? = some (.exiting code)) : o.exitCode = some code := by
  have same : o.transfer? = o.exitCode.map .exiting :=
    exitAlone (.inr ⟨code, exit⟩) o.nestedError o.exitCode
  simpa [exit] using same.symm

namespace ExitRecord

def next (r : ExitRecord) : Event → ExitRecord
  | .asked (.exiting code) _ => { r with underWay := some code, pending := true }
  | .concluded (some (.exiting code)) => { r with underWay := some code }
  | .concluded _ => { r with underWay := r.taken }
  | .callGivenUp => { r with underWay := r.taken }
  | .fileLeft false => { r with taken := r.underWay.orElse fun _ => r.taken }
  | .deferredEnded => { r with underWay := r.taken, pending := false }
  | _ => r

def of : List LogEntry → ExitRecord
  | [] => {}
  | entry :: before => (of before).next entry.event

/-- No command was run while an exit was pending. -/
def Heeded : List LogEntry → Prop
  | [] => True
  | entry :: before =>
    ((∃ c, entry.event = .dispatched c) → (of before).pending = false) ∧ Heeded before

theorem nextConcluded (r : ExitRecord) (t? : Option Transfer) : r.next (.concluded t?) =
    { r with underWay := (Status.of false t?).exit?.orElse fun _ => r.taken } := by
  rcases t? with _ | (_ | _ | _ | _) <;> rfl

theorem ofAside {entries : List LogEntry} (aside : ∀ entry ∈ entries, entry.event.isAside = true)
    (log : List LogEntry) :
    of (entries ++ log) = of log ∧ (Heeded log → Heeded (entries ++ log)) := by
  refine logIdle (fun {entry} log here => ⟨?_, fun before => ⟨?_, before⟩⟩) aside log
  · change (of log).next entry.event = _
    cases event : entry.event <;> rw [event] at here <;> first | rfl | cases here
  · rintro ⟨c, run⟩
    rw [run] at here
    cases here

theorem pendingSince {later earlier : List LogEntry} {asked : LogEntry} {code : Int}
    {values : List (String × Option String)} (exit : asked.event = .asked (.exiting code) values)
    (within : ∀ entry ∈ later, entry.event ≠ .deferredEnded) :
    (of (later ++ asked :: earlier)).pending = true := by
  induction later with
  | nil =>
    change ((of earlier).next asked.event).pending = true
    rw [exit]
    rfl
  | cons entry later ih =>
    have before := ih fun entry member => within entry (List.mem_cons_of_mem _ member)
    have stays := within entry (List.mem_cons_self ..)
    change ((of (later ++ asked :: earlier)).next entry.event).pending = true
    unfold next
    split <;> first | exact before | rfl | exact absurd ‹_› stays

theorem Heeded.since {later earlier : List LogEntry} {asked : LogEntry} {code : Int}
    {values : List (String × Option String)} (heeded : Heeded (later ++ asked :: earlier))
    (exit : asked.event = .asked (.exiting code) values)
    (within : ∀ entry ∈ later, entry.event ≠ .deferredEnded) :
    ∀ entry ∈ later, ∀ c, entry.event ≠ .dispatched c := by
  induction later with
  | nil => nofun
  | cons first later ih =>
    have inner : ∀ entry ∈ later, entry.event ≠ .deferredEnded :=
      fun entry member => within entry (List.mem_cons_of_mem _ member)
    intro entry member c run
    obtain rfl | inside := List.mem_cons.mp member
    · have idle := heeded.1 ⟨c, run⟩
      exact absurd ((pendingSince exit inner).symm.trans idle) nofun
    · exact ih heeded.2 inner entry inside c run

theorem Heeded.before {later earlier : List LogEntry} (heeded : Heeded (later ++ earlier)) :
    Heeded earlier := by
  induction later with
  | nil => exact heeded
  | cons _ _ ih => exact ih heeded.2

structure Fits (r : ExitRecord) (s : Status) : Prop where
  exit : ∀ code, s.exit? = some code → r.underWay = some code
  stays : s.exit? = none → r.underWay = none ∨ r.underWay = r.taken
  pending : r.pending = true → s.exit? ≠ none ∨ s = .finished ∧ r.taken ≠ none

namespace Fits

variable {r : ExitRecord} {s s' : Status}

theorem turn (fits : r.Fits s) (exit : s'.exit? = s.exit?)
    (finishes : s = .finished → s' = .finished ∨ r.taken = none) : r.Fits s' where
  exit code leaves := fits.exit code (exit ▸ leaves)
  stays none := fits.stays (exit ▸ none)
  pending waits := by
    obtain leaves | ⟨ended, taken⟩ := fits.pending waits
    · exact .inl (exit ▸ leaves)
    · obtain stays | unknown := finishes ended
      · exact .inr ⟨stays, taken⟩
      · exact absurd unknown taken

theorem settled (taken : r.underWay = r.taken) (exit : s.exit? = none)
    (quiet : r.pending = false) : r.Fits s where
  exit code leaves := by
    rw [exit] at leaves
    cases leaves
  stays _ := .inr taken
  pending waits := by
    rw [quiet] at waits
    cases waits

theorem takenLeft (fits : r.Fits s) :
    (r.next (.fileLeft false)).taken = s.exit?.orElse fun _ => r.taken := by
  change (r.underWay.orElse fun _ => r.taken) = _
  cases exit : s.exit? with
  | some code => rw [fits.exit code exit]
  | none =>
    obtain none | taken := fits.stays exit
    · rw [none, Option.orElse_none]
    · rw [taken]
      cases r.taken <;> rfl

theorem left (fits : r.Fits s) (stays : s ≠ .finished) :
    (r.next (.fileLeft false)).Fits .finished where
  exit := nofun
  stays _ := by
    change r.underWay = none ∨ r.underWay = r.underWay.orElse fun _ => r.taken
    cases r.underWay with
    | none => exact .inl rfl
    | some code => exact .inr rfl
  pending waits := by
    obtain leaves | ⟨ended, -⟩ := fits.pending waits
    · obtain ⟨code, exit⟩ := Option.ne_none_iff_exists'.mp leaves
      refine .inr ⟨rfl, ?_⟩
      rw [fits.takenLeft, exit]
      nofun
    · exact absurd ended stays

theorem idle (fits : r.Fits .going) : r.pending = false := by
  refine eq_false_of_ne_true fun waits => ?_
  obtain leaves | ⟨ended, -⟩ := fits.pending waits
  · exact leaves rfl
  · cases ended

theorem passesOn {o : Outcome} (fits : r.Fits (.within o)) (waits : r.pending = true)
    (nestedError : Bool) : (Status.of false { o with
      nestedError, exitCode := r.taken.orElse fun _ => o.exitCode }.transfer?).exit? ≠ none := by
  have takes (alone : o.transfer? = none ∨ ∃ code, o.transfer? = some (.exiting code))
      (known : (r.taken.orElse fun _ => o.exitCode) ≠ none) : (Status.of false { o with
        nestedError, exitCode := r.taken.orElse fun _ => o.exitCode }.transfer?).exit? ≠ none := by
    obtain ⟨code, known⟩ := Option.ne_none_iff_exists'.mp known
    rw [known, Outcome.exitAlone alone]
    nofun
  obtain leaves | ⟨ended, taken⟩ := fits.pending waits
  · obtain ⟨code, exit⟩ := Option.ne_none_iff_exists'.mp leaves
    have asked := Status.withinExit exit
    refine takes (.inr ⟨code, asked⟩) ?_
    rw [Outcome.transferExit asked]
    cases r.taken <;> nofun
  · obtain ⟨code, taken⟩ := Option.ne_none_iff_exists'.mp taken
    refine takes (.inl (Status.withinFinished ended)) ?_
    rw [taken]
    nofun

theorem concluded {o : Outcome} (fits : r.Fits (.within o))
    (exits : ∀ code, o.Exits code → r.Fits (.leaving (.exiting code) false))
    (failed nestedError : Bool) :
    let o' := { o with nestedError, exitCode := r.taken.orElse fun _ => o.exitCode }
    (r.next (.concluded o'.transfer?)).Fits (.of failed o'.transfer?) ∧
      ∀ code, o'.Exits code →
        (r.next (.concluded o'.transfer?)).Fits (.leaving (.exiting code) failed) := by
  intro o'
  rw [nextConcluded]
  refine ⟨⟨fun code leaves => ?_, fun stays => ?_, fun waits => .inl ?_⟩, fun code leaves =>
    ⟨?_, nofun, fun _ => .inl nofun⟩⟩
  · rw [Status.exitOf] at leaves
    rw [leaves]
    rfl
  · rw [Status.exitOf] at stays
    rw [stays]
    exact .inr rfl
  · rw [Status.exitOf]
    exact fits.passesOn waits nestedError
  · rintro _ ⟨⟩
    obtain ⟨returning, known⟩ := leaves
    cases exit : (Status.of false o'.transfer?).exit? with
    | some code' =>
      have asked := Status.withinExit ((Status.exitWithin o').trans exit)
      exact (Outcome.transferExit asked).symm.trans known
    | none =>
      change r.taken = some code
      cases taken : r.taken with
      | some code' => exact (congrArg (·.orElse fun _ => o.exitCode) taken).symm.trans known
      | none =>
        -- A transfer of control that goes first leaves no exit under way.
        have same : o'.exitCode = o.exitCode := congrArg (·.orElse fun _ => o.exitCode) taken
        have underWay := (exits code ⟨returning, same.symm.trans known⟩).exit code rfl
        have none : (Status.within o).exit? = none := by
          rw [Status.exitWithin, ← exit]
          change _ = (Status.of false
            { o with nestedError, exitCode := o'.exitCode }.transfer?).exit?
          rw [same]
          rfl
        obtain idle | idle := fits.stays none
        · exact idle.symm.trans underWay
        · exact (idle.trans taken).symm.trans underWay

end Fits
end ExitRecord
namespace Engine

structure Heeds (s : Status) (e : Engine) : Prop where
  script : e.options.mode = .script
  heeded : ExitRecord.Heeded e.log
  taken : e.exitCode = (ExitRecord.of e.log).taken
  failed : ∀ t, s = .leaving t true → e.fatal = true
  fits : e.fatal = false → (ExitRecord.of e.log).Fits s

namespace Heeds

variable {s s' : Status} {e e' : Engine}

theorem steady (heeds : e.Heeds s) (steady : e.Steady e') : e'.Heeds s := by
  obtain ⟨entries, aside, log⟩ := steady.log
  obtain ⟨same, heeded⟩ := ExitRecord.ofAside aside e.log
  rw [← log] at same heeded
  constructor
  case script => exact steady.options ▸ heeds.script
  case heeded => exact heeded heeds.heeded
  case taken => rw [steady.exitCode, same, heeds.taken]
  case failed => exact fun t leaves => steady.fatal (heeds.failed t leaves)
  case fits =>
    intro live
    rw [same]
    refine heeds.fits (eq_false_of_ne_true fun stops => ?_)
    rw [steady.fatal stops] at live
    cases live

theorem turn (heeds : e.Heeds s) (exit : s'.exit? = s.exit?)
    (finishes : s = .finished → s' = .finished ∨ e.exitCode = none)
    (failed : ∀ t, s' = .leaving t true → e.fatal = true) : e.Heeds s' :=
  { heeds with
    failed
    fits := fun live => (heeds.fits live).turn exit fun ended => heeds.taken ▸ finishes ended }

theorem noted (heeds : e.Heeds s) {blocks : BlockStack Block} {event : Event}
    (runs : ∀ c, event ≠ .dispatched c)
    (taken : ((ExitRecord.of e.log).next event).taken = (ExitRecord.of e.log).taken)
    (failed : ∀ t, s' = .leaving t true → e.fatal = true)
    (fits : e.fatal = false → ((ExitRecord.of e.log).next event).Fits s') :
    ({ e with blocks }.logged event).Heeds s' where
  script := heeds.script
  heeded := ⟨fun ⟨c, run⟩ => absurd run (runs c), heeds.heeded⟩
  taken := heeds.taken.trans taken.symm
  failed := failed
  fits := fits

theorem logged (heeds : e.Heeds s) (blocks : BlockStack Block) {event : Event}
    (runs : ∀ c, event ≠ .dispatched c)
    (idle : (ExitRecord.of e.log).next event = ExitRecord.of e.log) :
    ({ e with blocks }.logged event).Heeds s :=
  heeds.noted runs (by rw [idle]) heeds.failed fun live => by
    rw [idle]
    exact heeds.fits live

theorem dispatched (heeds : e.Heeds .going) (live : e.fatal = false) (c : Command) :
    (e.logged (.dispatched c)).Heeds .going :=
  { heeds with heeded := ⟨fun _ => (heeds.fits live).idle, heeds.heeded⟩ }

theorem asked (heeds : e.Heeds .going) (t : Transfer) (values : List (String × Option String))
    (steady : e.Steady e') : (e'.logged (.asked t values)).Heeds (.of false (some t)) := by
  have heeds := heeds.steady steady
  cases t with
  | exiting code =>
    refine heeds.noted (by simp) rfl (by rintro _ ⟨⟩) fun live => ?_
    exact ⟨fun _ same => same, by rintro ⟨⟩, fun _ => .inl (by rintro ⟨⟩)⟩
  | returning names =>
    have turned : e'.Heeds (.of false (some (.returning names))) :=
      heeds.turn rfl (by rintro ⟨⟩) (by rintro _ ⟨⟩)
    exact turned.logged _ (by simp) rfl
  | breaking => exact heeds.logged _ (by simp) rfl
  | continuing => exact heeds.logged _ (by simp) rfl

theorem givenUp (heeds : e.Heeds s) (mayFail : s.mayFail) :
    (e.logged .callGivenUp).Heeds .going := by
  refine heeds.noted (by simp) rfl (by rintro _ ⟨⟩) fun live => .settled rfl rfl ?_
  rcases s with - | ⟨t, failed⟩ | -
  · exact (heeds.fits live).idle
  · cases mayFail
    rw [heeds.failed t rfl] at live
    cases live
  · exact mayFail.elim

theorem deferredEnded (heeds : e.Heeds s) : (e.logged .deferredEnded).Heeds .going :=
  heeds.noted (by simp) rfl (by rintro _ ⟨⟩) fun _ => .settled rfl rfl rfl

theorem leaveFunction (heeds : e.Heeds s) (stays : s ≠ .finished) (handle : ScopeHandle)
    (report : Bool) : (s.leaveFunction handle report e).Heeds s.inCaller := by
  have turned : e.Heeds s.inCaller := by
    refine heeds.turn s.exitInCaller (fun finished => absurd finished stays) fun t same => ?_
    rcases s with _ | ⟨_ | _ | _ | _, _⟩ | _ <;> cases same
  obtain ⟨seen, same⟩ := s.leaveFunctionCases handle report e
  have raised := Turns.raiseAll e s.names
  rw [same]
  exact (turned.steady (.turns (raised.trans (.closeFunction ..)))).logged _ nofun rfl

theorem fileDropped (heeds : e.Heeds s) (stops : e.fatal = true) :
    (e.logged (.fileLeft e.fatal)).Heeds .finished := by
  have ended : e.Heeds .finished :=
    ⟨heeds.script, heeds.heeded, heeds.taken, by rintro _ ⟨⟩,
      fun live => by rw [stops] at live; cases live⟩
  rw [stops]
  exact ended.logged _ (by simp) rfl

theorem fileLeft (heeds : e.Heeds s) (stays : s ≠ .finished) :
    ((s.endFile e).logged (.fileLeft (s.endFile e).fatal)).Heeds .finished := by
  have left {e' : Engine} (heeds : e'.Heeds s) (live : e'.fatal = false) (code : Option Int)
      (taken : code = s.exit?.orElse fun _ => e'.exitCode) :
      ({ e' with exitCode := code }.logged (.fileLeft e'.fatal)).Heeds .finished := by
    have fits := heeds.fits live
    rw [live]
    refine ⟨heeds.script, ⟨by rintro ⟨c, ⟨⟩⟩, heeds.heeded⟩, ?_, by rintro _ ⟨⟩, fun _ =>
      fits.left stays⟩
    rw [taken, heeds.taken]
    exact fits.takenLeft.symm
  cases stops : e.fatal with
  | true =>
    rw [Status.endFileStops s stops]
    exact heeds.fileDropped stops
  | false =>
    cases exit : s.exit? with
    | some code =>
      rw [Status.endFileExits stops exit]
      exact left heeds stops (some code) (by rw [exit]; rfl)
    | none =>
      rw [Status.endFileStays stops exit]
      have raised := heeds.steady (.edits (.raiseAll e s.names))
      cases stops' : (e.raiseAll s.names).fatal with
      | true => exact stops' ▸ raised.fileDropped stops'
      | false => exact stops' ▸ left raised stops' _ (by rw [exit]; rfl)

theorem concluded {c : Command} {succeeded : Bool} {o : Outcome} {result : Bool × Outcome}
    (heeds : e.Heeds (.within o))
    (exits : ∀ code, o.Exits code → e.Heeds (.leaving (.exiting code) false))
    (ended : Runner.conclude c succeeded o e = (result, e')) :
    (e'.logged (.concluded result.2.transfer?)).Heeds (.after result) ∧
      ∀ code, result.2.Exits code → (e'.logged (.concluded result.2.transfer?)).Heeds
        (.leaving (.exiting code) (Status.fails result)) := by
  obtain ⟨failed, nested, answer, fails, stops⟩ := concludeScript heeds.script c succeeded o
  have moved := Runner.concludeSteady c succeeded o e
  rw [ended] at answer fails stops moved
  dsimp only at answer fails stops moved
  have known : (ExitRecord.of e'.log).taken = e.exitCode :=
    (heeds.steady moved).taken.symm.trans moved.exitCode
  have fits live := ((heeds.steady moved).fits live).concluded
    (fun code leaves => ((exits code leaves).steady moved).fits live) failed nested
  rw [known] at fits
  rw [Status.after, fails]
  subst answer
  have keeps (t? : Option Transfer) : ((ExitRecord.of e'.log).next (.concluded t?)).taken =
      (ExitRecord.of e'.log).taken := by rw [ExitRecord.nextConcluded]
  constructor
  · exact (heeds.steady moved).noted (by simp) (keeps _)
      (fun t leaves => stops (Status.ofFailed leaves)) fun live => (fits live).1
  · intro code leaves
    exact (heeds.steady moved).noted (by simp) (keeps _)
      (fun t same => stops (Status.leaving.inj same).2) fun live => (fits live).2 code leaves

end Heeds
end Engine
open Engine

def deferredExit : Conduct Unit where
  holds s _ := Heeds s
  stopped e := ExitRecord.Heeded e.log
  strict := False
  nests := True
  follows := True
  stop heeds := heeds.heeded
  blind unfollowed _ := absurd trivial unfollowed
  ended heeds := heeds.turn rfl nofun nofun
  resumed heeds none := heeds.turn rfl (fun _ => .inr none) nofun
  passed {t g e} heeds := by
    refine heeds.turn ?_ nofun nofun
    cases t <;> rfl
  edit _ heeds moves := heeds.steady (.edits moves.edits)
  failStops _ heeds := heeds.steady (.setFatal _)
  stopNoted _ heeds := heeds.steady (.noteStop _)
  offered c heeds := heeds.logged _ nofun rfl
  recorded depth c heeds _ := heeds.logged _ nofun rfl
  closed c heeds _ _ _ := heeds.logged _ nofun rfl
  loop {g e top below} c heeds _ _ _ := by
    refine ⟨(), fun {e'} moves => ?_, fun _ inside => inside.steady (.endLoop _)⟩
    have closed : (({ e with blocks := { e.blocks with blocks := below } } : Engine).logged
      (.offered c)).Heeds .going := heeds.logged _ nofun rfl
    have moved := closed.steady (.edits moves.edits)
    exact ⟨moved.heeded, moved.logged _ nofun rfl⟩
  scopeClosed {g e top below policies bindings propagate} c heeds _ _ _ := by
    refine ⟨(), heeds.logged _ nofun rfl, fun {s e'} _ ended _ => ?_⟩
    have raised := Turns.raiseAll e' s.names
    exact ended.steady (.turns ((raised.trans (.logged _ rfl)).trans (.closeBlockScopes ..)))
  command c heeds :=
    ⟨(), heeds.steady (.other rfl rfl id rfl), fun _ ended => ended.steady (.other rfl rfl id rfl)⟩
  dispatched c heeds live := heeds.dispatched live c
  sought heeds _ := heeds.logged _ nofun rfl
  asked t heeds _ _ edits := heeds.asked t _ (.edits edits)
  returned target heeds := heeds.logged _ nofun rfl
  concluded c succeeded o heeds _ exits := heeds.concluded exits rfl
  opening heeds _ _ opening := heeds.steady (.turns (.opening opening))
  definition heeds _ _ := heeds.steady (.define ..)
  restored saved _ heeds := (heeds.steady (.edits (.assignAll saved _))).logged _ nofun rfl
  givenUp mayFail heeds := heeds.givenUp mayFail
  functionCall values heeds _ _ _ _ := ⟨(), heeds.steady (.enterFunction ..),
    fun report stays ended _ => ended.leaveFunction stays _ report⟩
  macroCall heeds _ _ _ _ := ⟨(), heeds.steady (.enterMacro ..),
    fun report _ ended _ => ended.steady (.turns (.closeMacro ..))⟩
  frame frame heeds :=
    ⟨(), id, heeds.steady (.other rfl rfl id rfl), fun _ ended =>
      ended.steady (.other rfl rfl id rfl)⟩
  scopeBarrier o heeds _ := by
    have opened := heeds.steady (.turns ((Turns.openScope _ o).trans (.openBarrier _)))
    exact ⟨(), id, opened, fun report reportScope ended _ =>
      ended.steady (.turns (.closeBarrierScope ..))⟩
  barrierScope o heeds _ := by
    have opened := heeds.steady (.turns ((Turns.openBarrier _).trans (.openScope _ o)))
    exact ⟨(), opened, fun report reportScope ended _ =>
      ended.steady (.turns (.closeBarrierScope ..))⟩
  fileLeft stays heeds := heeds.fileLeft stays
  deferredCall o heeds _ := by
    have opened := heeds.steady (.turns (.openScope _ o))
    exact ⟨(), opened.logged _ nofun rfl, fun _ ended _ =>
      ended.deferredEnded.steady (.turns (.closeScope ..))⟩
  queue change _ _ _ heeds := heeds.steady (.changeQueue _ _ change)
  deferredTaken {g e top below} o depth c heeds _ := by
    have begun : ((e.openScope o.create).2.logged .deferredBegun).Heeds .going :=
      (heeds.steady (.turns (.openScope e o))).logged _ nofun rfl
    have taken blocks : (({ (e.openScope o.create).2.logged .deferredBegun with
        blocks } : Engine).logged (.offered c)).Heeds .going := begun.logged _ nofun rfl
    exact ⟨begun.heeded, (taken _).deferredEnded.steady (.turns (.closeScope ..))⟩
  reach _ _ := trivial
  created _ _ heeds created := heeds.steady (.subdirectory created)
  refusal error _ heeds := heeds.steady (.internalError ..)
  directory {g e₀ e id} _ _ heeds _ created := by
    have entered : (Runner.enterDirectory id e).Heeds .going :=
      (heeds.steady (.subdirectory created)).steady (.other rfl rfl (fun stops => stops) rfl)
    exact ⟨(), trivial, entered, fun _ ended _ =>
      ended.steady (.other rfl rfl (fun stops => stops) rfl)⟩

/-- After a deferred call has asked for an exit, no command is run until that call has ended. The
calls that come after it are run all the same, and the exit makes for the answer only if it left a
file in the meantime. -/
theorem deferredExitPasses (options : Options) (platform : Platform)
    (environment : List (String × String)) (path source : String) (fuel : Nat) :
    let start := Engine.start { options with mode := .script } platform environment
    let run := (Runner.ofFuel fuel).runSource path source
    (∀ code values blocks since earlier later,
      (run.state start).log =
        later ++ (since ++ ⟨.asked (.exiting code) values, blocks⟩ :: earlier) →
      (∀ entry ∈ since, entry.event ≠ .deferredEnded) →
      ∀ entry ∈ since, ∀ c, entry.event ≠ .dispatched c) ∧
    ∀ answer e, run start = .ok (.ok answer, e) →
      (answer = match (ExitRecord.of e.log).taken with
        | some code => code
        | none => if e.errorOccurred || e.fatal then 1 else 0) ∧
      let ledger := Ledger.of 0 e.log
      (e.fatal = false → ledger.ran ≠ [] →
        (∀ entry ∈ e.log, entry.event = .queue 0 .begun → entry.blocks.blocks = []) →
        (∀ r ∈ ledger.calls, r.state = .executed ∨ r.state = .cancelled) ∧
          ledger.ran = executedCommands ledger.calls) := by
  intro start run
  have heeds : start.Heeds .going := by
    obtain ⟨environment', cache, errorOccurred, same⟩ :=
      Engine.startCases { options with mode := .script } platform environment
    rw [show start = _ from same]
    exact ⟨rfl, trivial, rfl, nofun, fun _ => .settled rfl rfl rfl⟩
  have ready : deferredExit.Ready .going () start := ⟨⟨heeds, nofun⟩, nofun⟩
  have ends := Runner.sourceEnds (deferredExit.runs fuel) path source ready
  constructor
  · intro code values blocks since earlier later log within
    have heeded : ExitRecord.Heeded (run.state start).log :=
      ends.state (fun _ _ answered => answered.1.holds.heeded) fun _ stopped => stopped.stopped
    rw [log] at heeded
    exact heeded.before.since rfl within
  · intro answer e ended
    obtain ⟨ready, answers⟩ := ends.ok ended
    have taken : e.exitCode = (ExitRecord.of e.log).taken := ready.holds.taken
    refine ⟨?_, fun live some free => ?_⟩
    · have final : e.finalExitCode = (match (ExitRecord.of e.log).taken with
          | some code => code
          | none => if e.errorOccurred || e.fatal then 1 else 0) :=
        congrArg (fun code : Option Int => ({ e with exitCode := code } : Engine).finalExitCode) taken
      exact (answers answer rfl).trans final
    · exact Runner.sourceOrder { options with mode := .script } platform environment path source fuel
        ended live free (.inr some)

theorem exitOfCallIsDropped :
    let source := "cmake_language(DEFER CALL cmake_language EXIT 3)\n" ++
      "cmake_language(DEFER CALL message later)\n"
    let start := Engine.start { mode := .script } {} []
    let run := (Runner.ofFuel 9).runSource "a.cmake" source
    (∃ blocks since earlier later, (run.state start).log =
        later ++ (since ++ ⟨.asked (.exiting 3) [], blocks⟩ :: earlier) ∧
      (∀ entry ∈ since, entry.event ≠ .deferredEnded) ∧
      (∃ entry ∈ later, entry.event = .deferredBegun) ∧
      ∀ entry ∈ since, ∀ c, entry.event ≠ .dispatched c) ∧
    ∃ e, run start = .ok (.ok 0, e) ∧
      (Ledger.of 0 e.log).ran.map (·.name) = ["cmake_language", "message"] ∧
      (Ledger.of 0 e.log).ran = executedCommands (Ledger.of 0 e.log).calls ∧
      (0 : Int) = match (ExitRecord.of e.log).taken with
        | some code => code
        | none => if e.errorOccurred || e.fatal then 1 else 0 := by
  intro source start run
  obtain ⟨quiet, order⟩ := deferredExitPasses {} {} [] "a.cmake" source 9
  have checked :
      let e := run.state start
      let asked := e.log.span (·.event != .asked (.exiting 3) [])
      let ended := asked.1.reverse.span (·.event != .deferredEnded)
      (e.log = ended.2.reverse ++
          (ended.1.reverse ++ ⟨.asked (.exiting 3) [], ⟨[], [0]⟩⟩ :: asked.2.tail) ∧
        (∀ entry ∈ ended.1.reverse, entry.event ≠ .deferredEnded) ∧
        (∃ entry ∈ ended.2.reverse, entry.event = .deferredBegun) ∧ e.fatal = false ∧
        (∀ entry ∈ e.log, entry.event = .queue 0 .begun → entry.blocks.blocks = []) ∧
        (Ledger.of 0 e.log).ran.map (·.name) = ["cmake_language", "message"]) ∧
      (run start).toOption.map (·.1.toOption) = some (some 0) := by
    decide +kernel
  obtain ⟨⟨log, within, later, live, free, ran⟩, answered⟩ := checked
  have idle := quiet _ _ _ _ _ _ log within
  refine ⟨⟨_, _, _, _, log, within, later, idle⟩, ?_⟩
  have ended := Run.answers answered
  obtain ⟨answers, complete⟩ := order 0 _ ended
  have some : (Ledger.of 0 (run.state start).log).ran ≠ [] := fun none => by
    rw [none] at ran
    cases ran
  exact ⟨_, ended, ran, (complete live some free).2, answers⟩

end CMakeScript
