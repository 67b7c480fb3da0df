import CMakeScript.Proofs.RequestRuns
import CMakeScript.Proofs.Steady
/-! A script that exits by itself. From the command that asks for the exit on, no command is run any
more. The code that was asked for is the answer unless the exit is lost on its way: a call in which
an error was issued fails, and so does a file that ends after it. -/
namespace CMakeScript

inductive Fate where
  | underWay
  | left
  | lost
  deriving DecidableEq, Repr

def Fate.next : Fate → Event → Fate
  | underWay, .fileLeft false => left
  | underWay, .fileLeft true => lost
  | underWay, .callGivenUp => lost
  | fate, _ => fate

/-- The fate of an exit by what was logged since it was asked for. -/
def fate : List LogEntry → Fate
  | [] => .underWay
  | entry :: before => (fate before).next entry.event

/-- The course of a script that can exit by itself. -/
inductive Course where
  | running
  | exited (code : Int) (fate : Fate) (deferred : Bool)
  | deferring
  | violated
  deriving DecidableEq, Repr

namespace Course

def next : Course → Event → Course
  | running, .asked (.exiting code) _ => exited code .underWay false
  | running, .deferredBegun => deferring
  | exited _ _ _, .asked (.exiting _) _ => violated
  | exited _ _ _, .dispatched _ => violated
  | exited code fate _, .deferredBegun => exited code fate true
  | exited code fate deferred, event => exited code (fate.next event) deferred
  | course, _ => course

def of : List LogEntry → Course
  | [] => running
  | entry :: before => (of before).next entry.event

end Course

def Event.steersExit : Event → Bool
  | asked (.exiting _) _ | dispatched _ | deferredBegun | fileLeft _ | callGivenUp => true
  | _ => false

namespace Course

theorem nextIdle {event : Event} (idle : event.steersExit = false) (course : Course) :
    course.next event = course := by
  rcases course with - | ⟨code, - | - | -, deferred⟩ | - | -
  all_goals
    rcases event with _ | _ | _ | _ | _ | _ | _ | _ | _ | ⟨_ | _ | _ | _, _⟩
    all_goals first | rfl | cases idle

theorem nextDeferring (event : Event) : deferring.next event = deferring := by
  cases event <;> rfl

theorem nextExited {event : Event} {course : Course} {code : Int} {fate : Fate}
    (begun : event ≠ .deferredBegun) (after : course.next event = exited code fate true) :
    ∃ before, course = exited code before true := by
  by_cases idle : event.steersExit = false
  · exact ⟨fate, (nextIdle idle course).symm.trans after⟩
  · rcases course with - | ⟨code', before, deferred⟩ | - | -
    all_goals
      rcases event with _ | _ | _ | _ | _ | _ | _ | _ | _ | ⟨_ | _ | _ | _, _⟩
      all_goals first
        | exact absurd rfl idle
        | exact absurd rfl begun
        | exact ⟨before, (Course.exited.inj after).2.2 ▸ (Course.exited.inj after).1 ▸ rfl⟩
        | cases after

theorem nextViolated (event : Event) : violated.next event = violated := by
  cases event <;> rfl

theorem nextOfExited {code : Int} {fate : Fate} {deferred : Bool} {event : Event}
    (fine : (exited code fate deferred).next event ≠ violated) :
    (∀ c, event ≠ .dispatched c) ∧
      ∃ since, (exited code fate deferred).next event = exited code (fate.next event) since ∧
        (deferred = true ∨ event = .deferredBegun → since = true) := by
  cases event with
  | dispatched c => exact absurd rfl fine
  | asked t values =>
    cases t with
    | exiting => exact absurd rfl fine
    | _ => exact ⟨nofun, deferred, rfl, fun earlier => earlier.resolve_right nofun⟩
  | deferredBegun =>
    refine ⟨nofun, true, ?_, fun _ => rfl⟩
    cases fate <;> rfl
  | _ => exact ⟨nofun, deferred, rfl, fun earlier => earlier.resolve_right nofun⟩

theorem since {later before : List LogEntry} {code : Int}
    (exit : of before = exited code .underWay false) (fine : of (later ++ before) ≠ violated) :
    (∀ entry ∈ later, ∀ c, entry.event ≠ .dispatched c) ∧
      ∃ deferred, of (later ++ before) = exited code (CMakeScript.fate later) deferred ∧
        ((∃ entry ∈ later, entry.event = .deferredBegun) → deferred = true) := by
  induction later with
  | nil => exact ⟨nofun, false, exit, nofun⟩
  | cons entry later ih =>
    change (of (later ++ before)).next entry.event ≠ violated at fine
    have earlier : of (later ++ before) ≠ violated := fun violated => by
      rw [violated, nextViolated] at fine
      exact fine rfl
    obtain ⟨idle, deferred, known, begun⟩ := ih earlier
    rw [known] at fine
    obtain ⟨quiet, since, next, marked⟩ := nextOfExited fine
    refine ⟨fun entry' member => ?_, since, ?_, ?_⟩
    · obtain rfl | inside := List.mem_cons.mp member
      · exact quiet
      · exact idle entry' inside
    · change (of (later ++ before)).next entry.event = _
      rw [known, next]
      rfl
    · rintro ⟨entry', member, event⟩
      obtain rfl | inside := List.mem_cons.mp member
      · exact marked (.inr event)
      · exact marked (.inl (begun ⟨entry', inside, event⟩))

theorem violatedSince {before : List LogEntry} (violated : of before = violated)
    (later : List LogEntry) : of (later ++ before) = .violated := by
  induction later with
  | nil => exact violated
  | cons entry later ih =>
    change (of (later ++ before)).next entry.event = _
    rw [ih, nextViolated]

def Over : Course → Prop
  | exited _ _ _ => True
  | _ => False

theorem overAsked {course : Course} {event : Event} (isOver : (course.next event).Over) :
    course.Over ∨ ∃ code values, event = .asked (.exiting code) values := by
  rcases course with - | ⟨code, fate, deferred⟩ | - | -
  · rcases event with _ | _ | _ | _ | _ | _ | _ | _ | _ | ⟨_ | _ | _ | code, values⟩
    case asked.exiting => exact .inr ⟨code, values, rfl⟩
    all_goals exact isOver.elim
  · exact .inl trivial
  · rw [nextDeferring] at isOver
    exact isOver.elim
  · rw [nextViolated] at isOver
    exact isOver.elim

theorem deferringBefore {course : Course} {event : Event} (begun : event ≠ .deferredBegun)
    (after : course.next event = deferring) : course = deferring := by
  by_cases idle : event.steersExit = false
  · exact (nextIdle idle course).symm.trans after
  · rcases course with _ | ⟨_, _, _⟩ | _ | _
    all_goals
      rcases event with _ | _ | _ | _ | _ | _ | _ | _ | _ | ⟨_ | _ | _ | _, _⟩
      all_goals first
        | rfl
        | exact absurd rfl idle
        | exact absurd rfl begun
        | cases after

theorem deferringBegun {log : List LogEntry} (late : of log = deferring) :
    ∃ entry ∈ log, entry.event = .deferredBegun := by
  induction log with
  | nil => cases late
  | cons entry log ih =>
    change (of log).next entry.event = deferring at late
    by_cases begun : entry.event = .deferredBegun
    · exact ⟨entry, List.mem_cons_self .., begun⟩
    · obtain ⟨entry', inside, event⟩ := ih (deferringBefore begun late)
      exact ⟨entry', List.mem_cons_of_mem _ inside, event⟩

theorem ofExit {later earlier : List LogEntry} {code : Int}
    {values : List (String × Option String)} {blocks : BlockStack Block}
    (own : ∀ entry ∈ earlier, entry.event ≠ .deferredBegun)
    (fine : of (later ++ ⟨.asked (.exiting code) values, blocks⟩ :: earlier) ≠ violated) :
    of (⟨.asked (.exiting code) values, blocks⟩ :: earlier) = exited code .underWay false := by
  have here : of (⟨.asked (.exiting code) values, blocks⟩ :: earlier) ≠ violated :=
    fun violated => fine (violatedSince violated later)
  change (of earlier).next (.asked (.exiting code) values) ≠ violated at here
  change (of earlier).next (.asked (.exiting code) values) = _
  cases before : of earlier with
  | running => rfl
  | deferring =>
    obtain ⟨entry, inside, begun⟩ := deferringBegun before
    exact absurd begun (own entry inside)
  | exited =>
    rw [before] at here
    exact absurd rfl here
  | violated =>
    rw [before] at here
    exact absurd rfl here

theorem ofAside {entries : List LogEntry} (aside : ∀ entry ∈ entries, entry.event.isAside = true)
    (log : List LogEntry) : of (entries ++ log) = of log := by
  induction entries with
  | nil => rfl
  | cons entry entries ih =>
    have idle : entry.event.steersExit = false := by
      have here := aside entry (List.mem_cons_self ..)
      cases event : entry.event with
      | blockOpened | barrierSet | barrierTaken | scopeOpened | scopeClosed | bodyEnded => rfl
      | queue | tested | stopped => rfl
      | defined | called | loopEntered | loopEnded | loopSought => rfl
      | _ =>
        rw [event] at here
        cases here
    rw [List.cons_append, of, nextIdle idle]
    exact ih fun entry member => aside entry (List.mem_cons_of_mem _ member)

theorem ofSteady {e e' : Engine} (steady : e.Steady e') : of e'.log = of e.log := by
  obtain ⟨entries, aside, log⟩ := steady.log
  rw [log]
  exact ofAside aside e.log

end Course

def Status.exit? : Status → Option Int
  | leaving (.exiting code) _ => some code
  | _ => none

theorem Status.exitOf (failed : Bool) (t? : Option Transfer) :
    (of failed t?).exit? = (of false t?).exit? := by
  rcases t? with - | (- | - | - | -) <;> rfl

theorem Status.ofFailed {failed : Bool} {t? : Option Transfer} {t : Transfer}
    (leaves : of failed t? = leaving t true) : failed = true := by
  obtain going | ⟨t', -, pending⟩ := ofCases failed t?
  · rw [going] at leaves
    cases leaves
  · rw [pending] at leaves
    exact (leaving.inj leaves).2

theorem Status.withinFinished {o : Outcome} (finished : within o = finished) :
    o.transfer? = none := by
  unfold within at finished
  split at finished
  case h_1 none => exact none
  case h_2 => exact absurd finished (ofNotFinished false _)

theorem Status.exitWithin (o : Outcome) : (within o).exit? = (of false o.transfer?).exit? := by
  unfold within
  split
  case h_1 none =>
    rw [none]
    rfl
  case h_2 => rfl

theorem Status.withinExit {o : Outcome} {code : Int} (leaves : (within o).exit? = some code) :
    o.transfer? = some (.exiting code) := by
  unfold within at leaves
  rcases pending : o.transfer? with _ | (_ | _ | _ | code') <;> rw [pending] at leaves <;>
    cases leaves
  rfl

theorem Outcome.exitAlone {o : Outcome}
    (alone : o.transfer? = none ∨ ∃ code, o.transfer? = some (.exiting code))
    (nestedError : Bool) (exitCode : Option Int) :
    { o with nestedError, exitCode }.transfer? = exitCode.map .exiting := by
  obtain ⟨error, returning, returned, breaking, continuing, nested, exitCode⟩ := o
  cases returning <;> cases breaking <;> cases continuing <;> simp_all [transfer?]

theorem Status.exitInCaller (s : Status) : s.inCaller.exit? = s.exit? := by
  rcases s with - | ⟨- | - | - | -, -⟩ | - <;> rfl

namespace Status

variable {e : Engine} {s : Status}

theorem endFileStops (s : Status) (stops : e.fatal = true) : s.endFile e = e := by
  unfold endFile
  rw [if_pos stops]

theorem endFileExits {code : Int} (live : e.fatal = false) (leaves : s.exit? = some code) :
    s.endFile e = { e with exitCode := some code } := by
  unfold endFile
  rw [live]
  rcases s with _ | ⟨_ | _ | _ | _, _⟩ | _
  case leaving.exiting =>
    cases leaves
    rfl
  all_goals cases leaves

theorem endFileStays (live : e.fatal = false) (stays : s.exit? = none) :
    s.endFile e = e.raiseAll s.names := by
  unfold endFile
  rw [live]
  rcases s with _ | ⟨_ | _ | _ | _, _⟩ | _
  case leaving.exiting => cases stays
  all_goals rfl

end Status

def Course.Fits (s : Status) (e : Engine) : Course → Prop
  | running => e.exitCode = none ∧ s.exit? = none
  | exited code .underWay _ => e.exitCode = none ∧ s.exit? = some code
  | exited code .left _ => e.exitCode = some code ∧
      (e.fatal = true ∨ s = .finished ∨ s.exit? = some code)
  | exited _ .lost _ => e.exitCode = none ∧ e.fatal = true
  | deferring => True
  | violated => False

def Course.Late (e : Engine) : Course → Prop
  | exited _ .left _ => e.fatal = true
  | exited _ .lost _ => e.fatal = true
  | deferring => True
  | _ => False

namespace Course.Late

variable {course : Course} {e e' : Engine}

theorem steady (late : course.Late e) (fatal : e.fatal = true → e'.fatal = true) :
    course.Late e' := by
  rcases course with _ | ⟨_, _ | _ | _, _⟩ | _ | _
  · exact late
  · exact late
  · exact fatal late
  · exact fatal late
  · trivial
  · exact late

theorem next (late : course.Late e) {event : Event} (runs : ∀ c, event ≠ .dispatched c)
    (asks : ∀ t values, event = .asked t values → e.fatal = false) :
    (course.next event).Late e := by
  have exited {code : Int} {fate : Fate} {deferred : Bool} (stops : e.fatal = true)
      (kept : ∀ event, fate.next event = fate) (late : (Course.exited code fate deferred).Late e)
      (late' : (Course.exited code fate true).Late e) :
      ((Course.exited code fate deferred).next event).Late e := by
    have idle t values : event ≠ .asked t values := fun same => by
      rw [asks t values same] at stops
      cases stops
    cases event with
    | asked t values => exact absurd rfl (idle t values)
    | dispatched c => exact absurd rfl (runs c)
    | deferredBegun => exact late'
    | _ =>
      simp only [Course.next, kept]
      exact late
  rcases course with _ | ⟨_, _ | _ | _, _⟩ | _ | _
  · exact late.elim
  · exact late.elim
  · exact exited late (fun _ => rfl) late late
  · exact exited late (fun _ => rfl) late late
  · rw [nextDeferring]
    trivial
  · exact late.elim

end Course.Late
namespace Course.Fits

variable {course : Course} {s s' : Status} {e e' : Engine}

theorem turn (fits : course.Fits s e) (exit : s'.exit? = s.exit?)
    (finishes : s = .finished → s' = .finished ∨ e.exitCode = none) : course.Fits s' e := by
  rcases course with - | ⟨code, - | - | -, deferred⟩ | - | -
  · exact ⟨fits.1, exit.trans fits.2⟩
  · exact ⟨fits.1, exit.trans fits.2⟩
  · obtain ⟨known, stops | ended | leaves⟩ := fits
    · exact ⟨known, .inl stops⟩
    · obtain stays | unknown := finishes ended
      · exact ⟨known, .inr (.inl stays)⟩
      · rw [known] at unknown
        cases unknown
    · exact ⟨known, .inr (.inr (exit.trans leaves))⟩
  · exact fits
  · trivial
  · exact fits

theorem steady (fits : course.Fits s e) (exitCode : e'.exitCode = e.exitCode)
    (fatal : e.fatal = true → e'.fatal = true) : course.Fits s e' := by
  rcases course with - | ⟨code, - | - | -, deferred⟩ | - | -
  · exact ⟨exitCode.trans fits.1, fits.2⟩
  · exact ⟨exitCode.trans fits.1, fits.2⟩
  · exact ⟨exitCode.trans fits.1, fits.2.imp_left fatal⟩
  · exact ⟨exitCode.trans fits.1, fatal fits.2⟩
  · trivial
  · exact fits

theorem live (fits : course.Fits .going e) (live : e.fatal = false) :
    course = .running ∨ course = .deferring := by
  have runs : e.fatal ≠ true := by simp [live]
  rcases course with - | ⟨code, - | - | -, deferred⟩ | - | -
  · exact .inl rfl
  · cases fits.2
  · obtain ⟨-, stops | ended | leaves⟩ := fits
    · exact absurd stops runs
    · cases ended
    · cases leaves
  · exact absurd fits.2 runs
  · exact .inr rfl
  · exact fits.elim

theorem asked (fits : course.Fits .going e) (live : e.fatal = false) (t : Transfer)
    (values : List (String × Option String)) :
    (course.next (.asked t values)).Fits (.of false (some t)) e := by
  obtain rfl | rfl := fits.live live
  · cases t <;> exact ⟨fits.1, rfl⟩
  · rw [nextDeferring]
    trivial

theorem late (fits : course.Fits s e) (late : course.Late e) : course.Fits .going e := by
  rcases course with _ | ⟨_, _ | _ | _, _⟩ | _ | _
  · exact late.elim
  · exact late.elim
  · exact ⟨fits.1, .inl late⟩
  · exact fits
  · trivial
  · exact fits

theorem givenUp (fits : course.Fits s e) (may : s = .going ∨ e.fatal = true) :
    (course.next .callGivenUp).Fits .going e := by
  rcases course with - | ⟨code, - | - | -, deferred⟩ | - | -
  · exact ⟨fits.1, rfl⟩
  · obtain rfl | stops := may
    · cases fits.2
    · exact ⟨fits.1, stops⟩
  · obtain rfl | stops := may
    · exact fits
    · exact ⟨fits.1, .inl stops⟩
  · exact fits
  · trivial
  · exact fits

theorem fileLeft (fits : course.Fits s e) (stays : s ≠ .finished) :
    (course.next (.fileLeft (s.endFile e).fatal)).Fits .finished (s.endFile e) := by
  cases stops : e.fatal with
  | true =>
    rw [Status.endFileStops s stops, stops]
    rcases course with - | ⟨code, - | - | -, deferred⟩ | - | -
    · exact ⟨fits.1, rfl⟩
    · exact ⟨fits.1, stops⟩
    · exact ⟨fits.1, .inl stops⟩
    · exact fits
    · trivial
    · exact fits
  | false =>
    have runs : e.fatal ≠ true := by simp [stops]
    have alive (code : Int) : ({ e with exitCode := some code } : Engine).fatal = false := stops
    rcases course with - | ⟨code, - | - | -, deferred⟩ | - | -
    · rw [Status.endFileStays stops fits.2]
      have raised : e.Steady (e.raiseAll s.names) := .edits (.raiseAll e _)
      exact ⟨raised.exitCode.trans fits.1, rfl⟩
    · rw [Status.endFileExits stops fits.2, alive]
      exact ⟨rfl, .inr (.inl rfl)⟩
    · obtain ⟨-, fatal | ended | leaves⟩ := fits
      · exact absurd fatal runs
      · exact absurd ended stays
      · rw [Status.endFileExits stops leaves]
        exact ⟨rfl, .inr (.inl rfl)⟩
    · exact absurd fits.2 runs
    · trivial
    · exact fits

end Course.Fits
namespace Engine

structure OnCourse (s : Status) (late : Bool) (e : Engine) : Prop where
  script : e.options.mode = .script
  failed : ∀ t, s = .leaving t true → e.fatal = true
  fits : (Course.of e.log).Fits s e
  free : (Course.of e.log).Over → e.Free
  deferred : ∀ code fate, Course.of e.log = .exited code fate true → e.fatal = true
  late : late = true → (Course.of e.log).Late e

structure KeepsExit (e : Engine) : Prop where
  fine : Course.of e.log ≠ .violated
  deferred : ∀ code fate, Course.of e.log = .exited code fate true → e.fatal = true

variable {s s' : Status} {late : Bool} {e e' : Engine}

namespace OnCourse

theorem moved (on : e.OnCourse s late) (options : e'.options = e.options)
    (exitCode : e'.exitCode = e.exitCode) (fatal : e.fatal = true → e'.fatal = true)
    (course : Course.of e'.log = Course.of e.log) (free : (Course.of e.log).Over → e'.Free) :
    e'.OnCourse s late where
  script := options ▸ on.script
  failed t leaves := fatal (on.failed t leaves)
  fits := by
    rw [course]
    exact on.fits.steady exitCode fatal
  free isOver := free (course ▸ isOver)
  deferred code fate known := fatal (on.deferred code fate (course ▸ known))
  late afterwards := by
    rw [course]
    exact (on.late afterwards).steady fatal

theorem steady (on : e.OnCourse s late) (steady : e.Steady e') (free : e.Free → e'.Free) :
    e'.OnCourse s late :=
  on.moved steady.options steady.exitCode steady.fatal (Course.ofSteady steady) fun isOver =>
    free (on.free isOver)

theorem steadyEarly (on : e.OnCourse s late) (early : ¬(Course.of e.log).Over)
    (steady : e.Steady e') : e'.OnCourse s late :=
  on.moved steady.options steady.exitCode steady.fatal (Course.ofSteady steady) fun isOver =>
    absurd isOver early

theorem alike (on : e.OnCourse s late) (steady : e.Steady e') (same : e.SameOpen e') :
    e'.OnCourse s late := on.steady steady fun free => free.sameOpen same

theorem stops (on : e.OnCourse .going late) (isOver : (Course.of e.log).Over) : e.fatal = true := by
  cases live : e.fatal with
  | true => rfl
  | false => obtain known | known := on.fits.live live <;> exact (known ▸ isOver).elim

/-- A block that is open was opened before any exit. -/
theorem running (on : e.OnCourse s late) {top : OpenBlock Block} {below : List (OpenBlock Block)}
    (found : e.blocks.blocks = top :: below) : ¬(Course.of e.log).Over := fun isOver => by
  cases found.symm.trans (on.free isOver)

theorem turn (on : e.OnCourse s late) (exit : s'.exit? = s.exit?)
    (finishes : s = .finished → s' = .finished ∨ e.exitCode = none)
    (failed : ∀ t, s' = .leaving t true → e.fatal = true) : e.OnCourse s' late :=
  { on with failed, fits := on.fits.turn exit finishes }

theorem turned (on : e.OnCourse s late) {event : Event} (begun : event ≠ .deferredBegun)
    (runs : ∀ c, event ≠ .dispatched c)
    (asks : ∀ t values, event = .asked t values → e.fatal = false)
    (failed : ∀ t, s' = .leaving t true → e.fatal = true)
    (fits : ((Course.of e.log).next event).Fits s' e)
    (free : ∀ code values, event = .asked (.exiting code) values → e.Free) :
    (e.logged event).OnCourse s' late where
  script := on.script
  failed := failed
  fits := fits
  free isOver := (Course.overAsked isOver).elim on.free fun ⟨code, values, asked⟩ =>
    free code values asked
  deferred code fate known := by
    obtain ⟨before, known⟩ := Course.nextExited begun known
    exact on.deferred code before known
  late afterwards := (on.late afterwards).next runs asks

theorem logged (on : e.OnCourse s late) {event : Event} (idle : event.steersExit = false) :
    (e.logged event).OnCourse s late :=
  on.moved rfl rfl id (Course.nextIdle idle _) on.free

theorem dispatched (on : e.OnCourse .going late) (live : e.fatal = false) (c : Command) :
    (e.logged (.dispatched c)).OnCourse .going late := by
  refine on.moved rfl rfl id ?_ on.free
  change (Course.of e.log).next (.dispatched c) = Course.of e.log
  obtain known | known := on.fits.live live <;> rw [known] <;> rfl

theorem offered (on : e.OnCourse s late) {top : OpenBlock Block} {below : List (OpenBlock Block)}
    (found : e.blocks.blocks = top :: below) (blocks : BlockStack Block) (c : Command) :
    (({ e with blocks } : Engine).logged (.offered c)).OnCourse s late := by
  exact on.moved rfl rfl id (Course.nextIdle rfl _) fun isOver => absurd isOver (on.running found)

theorem asked (on : e.OnCourse .going late) (live : e.fatal = false) (free : e.Free)
    (t : Transfer) (values : List (String × Option String)) (steady : e.Steady e')
    (same : e.SameOpen e') :
    (e'.logged (.asked t values)).OnCourse (.of false (some t)) late := by
  have failed t' (leaves : Status.of false (some t) = .leaving t' true) : e.fatal = true :=
    absurd (Status.ofFailed leaves) nofun
  have here : (e.logged (.asked t values)).OnCourse (.of false (some t)) late :=
    on.turned nofun nofun (fun _ _ _ => live) failed (on.fits.asked live t values)
      fun _ _ _ => free
  exact here.moved steady.options steady.exitCode steady.fatal
    (congrArg (Course.next · _) (Course.ofSteady steady)) fun _ =>
      show e'.Free from free.sameOpen same

theorem givenUp (on : e.OnCourse s late) (mayFail : s.mayFail) :
    (e.logged .callGivenUp).OnCourse .going late := by
  refine on.turned nofun nofun nofun nofun (on.fits.givenUp ?_) nofun
  rcases s with - | ⟨t, failed⟩ | -
  · exact .inl rfl
  · cases mayFail
    exact .inr (on.failed t rfl)
  · exact mayFail.elim

theorem deferredBegun (on : e.OnCourse .going late) :
    (e.logged .deferredBegun).OnCourse .going true := by
  obtain ⟨script, -, fits, free, -, -⟩ := on
  have next : Course.of (e.logged .deferredBegun).log = (Course.of e.log).next .deferredBegun := rfl
  replace free (isOver : (Course.of (e.logged .deferredBegun).log).Over) :
      (e.logged .deferredBegun).Free :=
    (Course.overAsked isOver).elim free fun ⟨_, _, asked⟩ => nomatch asked
  generalize Course.of e.log = course at next fits
  have begun (stops : e.fatal = true) (same : (course.next .deferredBegun).Fits .going e)
      (late : (course.next .deferredBegun).Late e) :
      (e.logged .deferredBegun).OnCourse .going true :=
    ⟨script, nofun, next ▸ same, free, fun _ _ _ => stops, fun _ => next ▸ late⟩
  rcases course with _ | ⟨code, _ | _ | _, _⟩ | _ | _
  · exact ⟨script, nofun, next ▸ trivial, free, by simp [next, Course.next], fun _ => next ▸ trivial⟩
  · cases fits.2
  · obtain ⟨known, stops | ended | leaves⟩ := fits
    · exact begun stops ⟨known, .inl stops⟩ stops
    · cases ended
    · cases leaves
  · exact begun fits.2 fits fits.2
  · exact ⟨script, nofun, next ▸ trivial, free, by simp [next, Course.next], fun _ => next ▸ trivial⟩
  · exact fits.elim

theorem deferredEnded (on : e.OnCourse s true) (outer : Bool) :
    (e.logged .deferredEnded).OnCourse .going outer := by
  have ended : (e.logged .deferredEnded).OnCourse s true := on.logged rfl
  have late := ended.late rfl
  exact ⟨ended.script, nofun, ended.fits.late late, ended.free, ended.deferred, fun _ => late⟩

theorem fileLeft (on : e.OnCourse s late) (stays : s ≠ .finished) :
    ((s.endFile e).logged (.fileLeft (s.endFile e).fatal)).OnCourse .finished late := by
  have ended := on.fits.fileLeft stays
  have same : (s.endFile e).options = e.options ∧ (e.fatal = true → (s.endFile e).fatal = true) ∧
      Course.of (s.endFile e).log = Course.of e.log ∧ (e.Free → (s.endFile e).Free) := by
    unfold Status.endFile
    split
    · exact ⟨rfl, id, rfl, id⟩
    · split
      · exact ⟨rfl, id, rfl, id⟩
      · have raised : e.Steady (e.raiseAll s.names) := .edits (.raiseAll e _)
        have kept : e.SameOpen (e.raiseAll s.names) := .edits (.raiseAll e _)
        exact ⟨raised.options, raised.fatal, Course.ofSteady raised, fun free =>
          free.sameOpen kept⟩
  obtain ⟨options, fatal, course, free⟩ := same
  have next : Course.of ((s.endFile e).logged (.fileLeft (s.endFile e).fatal)).log =
      (Course.of e.log).next (.fileLeft (s.endFile e).fatal) := congrArg (Course.next · _) course
  constructor
  case script => exact options ▸ on.script
  case failed => nofun
  case fits =>
    rw [next]
    exact ended
  case free =>
    intro isOver
    rw [next] at isOver
    exact (Course.overAsked isOver).elim (fun earlier => free (on.free earlier))
      fun ⟨_, _, asked⟩ => nomatch asked
  case deferred =>
    intro code fate known
    rw [next] at known
    have begun : Event.fileLeft (s.endFile e).fatal ≠ .deferredBegun := nofun
    obtain ⟨before, known⟩ := Course.nextExited begun known
    exact fatal (on.deferred code before known)
  case late =>
    intro afterwards
    rw [next]
    have runs c : Event.fileLeft (s.endFile e).fatal ≠ .dispatched c := nofun
    exact ((on.late afterwards).next runs nofun).steady fatal

end OnCourse

/-! The end of a command -/

theorem concludeScript (script : e.options.mode = .script) (c : Command) (succeeded : Bool)
    (o : Outcome) : ∃ failed nested,
      (Runner.conclude c succeeded o e).1 = (!failed,
        { o with nestedError := nested, exitCode := e.exitCode.orElse fun _ => o.exitCode }) ∧
      Status.fails (Runner.conclude c succeeded o e).1 = failed ∧
      (failed = true → (Runner.conclude c succeeded o e).2.fatal = true) := by
  unfold Runner.conclude
  rw [script]
  dsimp only
  split
  case isTrue fine =>
    obtain ⟨rfl, quiet⟩ := Bool.and_eq_true_iff.mp fine
    exact ⟨false, _, rfl, by simpa [Status.fails] using quiet, nofun⟩
  case isFalse =>
    refine ⟨true, _, rfl, rfl, fun _ => ?_⟩
    have same : (if o.nestedError || e.nested.headD false then e
        else e.issue .fatalError (c.name ++ " " ++ o.error)).options.mode = .script := by
      split
      · exact script
      · exact (congrArg Options.mode (Quiet.issueAt ..).options).trans script
    rw [if_pos same]
    rfl

namespace OnCourse

theorem withCode {code : Int} (on : e.OnCourse s late) (known : e.exitCode = some code)
    (failed : ∀ t, s' = .leaving t true → e.fatal = true)
    (exit : s = .finished ∨ s.exit? = some code → s'.exit? = some code) : e.OnCourse s' late := by
  have fits := on.fits
  refine { on with failed, fits := ?_ }
  generalize Course.of e.log = course at fits
  have unset (none : e.exitCode = none) : False := by
    rw [known] at none
    cases none
  rcases course with _ | ⟨code', _ | _ | _, _⟩ | _ | _
  · exact (unset fits.1).elim
  · exact (unset fits.1).elim
  · obtain ⟨same, pending⟩ := fits
    obtain rfl : code = code' := Option.some.inj (known.symm.trans same)
    exact ⟨known, pending.imp_right fun pending => .inr (exit pending)⟩
  · exact (unset fits.1).elim
  · trivial
  · exact fits

theorem takesCode {o : Outcome} (on : e.OnCourse (.within o) late) (nestedError : Bool) :
    e.OnCourse (.of false { o with
      nestedError, exitCode := e.exitCode.orElse fun _ => o.exitCode }.transfer?) late := by
  cases known : e.exitCode with
  | none =>
    change e.OnCourse (.of false o.transfer?) late
    unfold Status.within at on
    cases pending : o.transfer? with
    | none =>
      rw [pending] at on
      exact on.turn rfl (fun _ => .inr known) nofun
    | some t =>
      rw [pending] at on
      exact on
  | some code =>
    refine on.withCode known (fun t leaves => absurd (Status.ofFailed leaves) nofun) ?_
    intro pending
    have alone : o.transfer? = none ∨ ∃ code, o.transfer? = some (.exiting code) := by
      obtain finished | leaves := pending
      · exact .inl (Status.withinFinished finished)
      · exact .inr ⟨code, Status.withinExit leaves⟩
    have takes : { o with nestedError, exitCode := some code }.transfer? = some (.exiting code) :=
      Outcome.exitAlone alone nestedError (some code)
    change (Status.of false { o with nestedError, exitCode := some code }.transfer?).exit? = _
    rw [takes]
    rfl

theorem concluded {o : Outcome} {result : Bool × Outcome} (on : e.OnCourse (.within o) late)
    (exits : ∀ code, o.Exits code → e.OnCourse (.leaving (.exiting code) false) late)
    {c : Command} {succeeded : Bool} (ended : Runner.conclude c succeeded o e = (result, e')) :
    (e'.logged (.concluded result.2.transfer?)).OnCourse (.after result) late ∧
      ∀ code, result.2.Exits code → (e'.logged (.concluded result.2.transfer?)).OnCourse
        (.leaving (.exiting code) (Status.fails result)) late := by
  obtain ⟨failed, nested, answer, fails, stops⟩ := concludeScript on.script c succeeded o
  have steady := Runner.concludeSteady c succeeded o e
  have same := Runner.concludeSame c succeeded o e
  rw [ended] at answer fails stops steady same
  dsimp only at answer fails stops steady same
  rw [Status.after, fails]
  subst answer
  refine ⟨?_, fun code exits' => ?_⟩
  · have taken := (on.takesCode nested).alike steady same
    refine (taken.turn (Status.exitOf ..) ?_ ?_).logged rfl
    · exact fun finished => absurd finished (Status.ofNotFinished false _)
    · exact fun t leaves => stops (Status.ofFailed leaves)
  · have leaves : e.OnCourse (.leaving (.exiting code) false) late := by
      obtain ⟨returning, exit⟩ := exits'
      cases known : e.exitCode with
      | none =>
        rw [known] at exit
        exact exits code ⟨returning, exit⟩
      | some code' =>
        rw [known] at exit
        obtain rfl : code' = code := Option.some.inj exit
        exact on.withCode known (fun t same => Bool.noConfusion (Status.leaving.inj same).2)
          fun _ => rfl
    have turned : e'.OnCourse (.leaving (.exiting code) failed) late :=
      (leaves.alike steady same).turn rfl (fun finished => absurd finished Status.leavingStays)
        fun t same => stops (Status.leaving.inj same).2
    exact turned.logged rfl

theorem leaveFunction (on : e.OnCourse s late) (stays : s ≠ .finished) (tidy : e.Tidy)
    (handle : ScopeHandle) (report : Bool) :
    (s.leaveFunction handle report e).OnCourse s.inCaller late := by
  have turned : e.OnCourse s.inCaller late := by
    refine on.turn s.exitInCaller (fun finished => absurd finished stays) fun t same => ?_
    rcases s with _ | ⟨_ | _ | _ | _, _⟩ | _ <;> cases same
  obtain ⟨seen, same⟩ := s.leaveFunctionCases handle report e
  have raised : e.Steady (e.raiseAll s.names) := .edits (.raiseAll e s.names)
  have left := tidy.sameOpen (.edits (.raiseAll e s.names))
  rw [same]
  exact (turned.steady (raised.trans (.turns (.closeFunction ..))) fun _ =>
    (left.closeFunction handle report).2).logged rfl

theorem closed (on : e.OnCourse s late) (tidy : e.Tidy) (handle : ScopeHandle)
    (report reportScope : Bool) :
    ((e.closeBarrier report).closeScope handle reportScope).OnCourse s late :=
  on.steady (.turns (.closeBarrierScope ..)) fun _ =>
    (tidy.closeBarrier report).2.sameOpen (.closeScope ..)

theorem kept (on : e.OnCourse s late) : e.KeepsExit := by
  refine ⟨fun violated => ?_, on.deferred⟩
  have fits := on.fits
  rw [violated] at fits
  exact fits

theorem answer {code : Int} {fate : Fate} {deferred : Bool} (on : e.OnCourse .finished late)
    (exited : Course.of e.log = .exited code fate deferred) :
    (fate = .left ∧ e.finalExitCode = code) ∨
      (fate = .lost ∧ e.finalExitCode = 1 ∧ e.fatal = true) := by
  have fits := on.fits
  rw [exited] at fits
  rw [Engine.finalExitCode]
  cases fate with
  | underWay => cases fits.2
  | left =>
    rw [fits.1]
    exact .inl ⟨rfl, rfl⟩
  | lost =>
    rw [fits.1, fits.2]
    exact .inr ⟨rfl, by simp, rfl⟩

end OnCourse
end Engine
open Engine

def scriptExit : Conduct Bool where
  holds := OnCourse
  stopped := KeepsExit
  strict := True
  nests := True
  follows := True
  isOver log := (Course.of log).Over
  stop on := on.kept
  blind unfollowed _ := absurd trivial unfollowed
  ended on := on.turn rfl nofun nofun
  resumed on none := on.turn rfl (fun _ => .inr none) nofun
  passed {t late e} on := by
    refine on.turn ?_ nofun nofun
    cases t <;> rfl
  edit _ on moves := on.alike (.edits moves.edits) (.edits moves.edits)
  overStops on isOver := on.stops isOver
  overFree on isOver := on.free isOver
  overAsked := Course.overAsked
  failStops _ on := on.alike (.setFatal _) (.setFatal _)
  stopNoted _ on := on.alike (.noteStop _) (.noteStop _)
  offered c on := on.logged rfl
  recorded depth c on found := on.offered found _ c
  closed c on found _ _ := on.offered found _ c
  loop {late e top below} c on found _ _ := by
    refine ⟨late, fun {e'} moves => ?_, fun _ inside =>
      inside.alike (.endLoop _) (.endLoop _)⟩
    have moved := (on.offered found { e.blocks with blocks := below } c).alike
      (.edits moves.edits) (.edits moves.edits)
    exact ⟨moved.kept, moved.logged rfl⟩
  scopeClosed {late e top below policies bindings propagate} c on found _ _ := by
    refine ⟨late, on.offered found _ c, fun {s e'} _ ended _ => ?_⟩
    have raised := ended.alike (.edits (.raiseAll e' s.names)) (.edits (.raiseAll e' s.names))
    have logged : ((e'.raiseAll s.names).logged .bodyEnded).OnCourse s late := raised.logged rfl
    exact logged.alike (.turns (.closeBlockScopes ..)) (.closeBlockScopes ..)
  command {late e} c on :=
    ⟨late, on.steady (.other rfl rfl id rfl) id, fun _ ended =>
      ended.steady (.other rfl rfl id rfl) id⟩
  dispatched c on live := on.dispatched live c
  sought on _ := on.logged rfl
  asked t on live free edits := on.asked live (free trivial) t _ (.edits edits) (.edits edits)
  returned target on := on.logged rfl
  concluded c succeeded o on _ exits := on.concluded exits rfl
  opening on _ early opening := on.steadyEarly early (.turns (.opening opening))
  definition on _ _ := on.steady (.define ..) id
  restored {s late e} saved _ on :=
    (on.alike (.edits (.assignAll saved e)) (.edits (.assignAll saved e))).logged rfl
  givenUp mayFail on := on.givenUp mayFail
  functionCall {late e d} values on _ _ _ _ := by
    have entered := Engine.SameOpen.enterFunction d values e
    refine ⟨late, on.steady (.enterFunction d values e) fun free =>
      (free.openFunction d.file d.policies).sameOpen entered, fun report stays ended tidy =>
      ended.leaveFunction stays (tidy trivial) _ report⟩
  macroCall {late e d} on _ _ _ _ := by
    have entered := Engine.SameOpen.enterMacro d e
    refine ⟨late, on.steady (.enterMacro d e) fun free =>
      (free.openMacro d.file d.policies).sameOpen entered, fun report _ ended tidy =>
      ended.steady (.turns (.closeMacro ..)) fun _ => ((tidy trivial).closeMacro _ report).2⟩
  frame {late e} frame on :=
    ⟨late, id, on.steady (.other rfl rfl id rfl) id, fun _ ended =>
      ended.steady (.other rfl rfl id rfl) id⟩
  scopeBarrier {late e} o on _ := by
    have opened := (Turns.openScope e o).trans (.openBarrier _)
    exact ⟨late, id, on.steady (.turns opened) fun free =>
        show Engine.Free (e.openScope o.create).2 from free.sameOpen (.openScope e o.create),
      fun report reportScope ended tidy => ended.closed (tidy trivial) _ report reportScope⟩
  barrierScope {late e} o on _ := by
    have opened := (Turns.openBarrier e).trans (.openScope _ o)
    exact ⟨late, on.steady (.turns opened) fun free =>
        Engine.Free.sameOpen (e := e.openBarrier) free (.openScope _ o.create),
      fun report reportScope ended tidy => ended.closed (tidy trivial) _ report reportScope⟩
  fileLeft stays on := on.fileLeft stays
  deferredCall {late e} o on _ := by
    have opened := on.alike (.turns (.openScope e o)) (.openScope e o.create)
    exact ⟨true, opened.deferredBegun, fun _ ended _ =>
      (ended.deferredEnded late).alike (.turns (.closeScope ..)) (.closeScope ..)⟩
  queue {s late e} change _ hosted _ on :=
    on.alike (.changeQueue _ _ change) (.hosted e e.current hosted)
  deferredTaken {late e top below} o depth c on found := by
    have same := Engine.SameOpen.openScope e o.create
    have begun := (on.alike (.turns (.openScope e o)) same).deferredBegun
    have busy : ((e.openScope o.create).2.logged .deferredBegun).blocks.blocks = top :: below :=
      (congrArg BlockStack.blocks same.blocks).trans found
    exact ⟨begun.kept, ((begun.offered busy _ c).deferredEnded late).alike
      (.turns (.closeScope ..)) (.closeScope ..)⟩
  reach _ _ := trivial
  created _ _ on created := on.alike (.subdirectory created) (.subdirectory created)
  refusal error _ on := on.alike (.internalError ..) (.internalError ..)
  directory {late e₀ e i} _ _ on _ created := by
    have here := on.alike (.subdirectory created) (.subdirectory created)
    have entered : (Runner.enterDirectory i e).OnCourse .going late :=
      here.steady (.other rfl rfl (fun stops => stops) rfl) id
    exact ⟨late, trivial, entered, fun _ ended _ =>
      ended.steady (.other rfl rfl (fun stops => stops) rfl) id⟩

theorem Engine.freshLog (options : Options) (platform : Platform)
    (environment : List (String × String)) : (start options platform environment).log = [] := by
  obtain ⟨environment', cache, errorOccurred, same⟩ := startCases options platform environment
  rw [same]

theorem scriptExitStart (options : Options) (platform : Platform)
    (environment : List (String × String)) :
    let start := Engine.start { options with mode := .script } platform environment
    scriptExit.Ready .going false start ∧ scriptExit.Early start := by
  intro start
  have early : scriptExit.Early start := by
    rw [Conduct.Early, Engine.freshLog]
    exact id
  have on : start.OnCourse .going false := by
    obtain ⟨environment', cache, errorOccurred, same⟩ :=
      Engine.startCases { options with mode := .script } platform environment
    dsimp only [start]
    rw [same]
    exact ⟨rfl, nofun, ⟨rfl, rfl⟩, nofun, nofun, nofun⟩
  exact ⟨⟨⟨on, fun _ => Engine.tidyStart ..⟩, fun _ => Engine.freeStart ..⟩, early⟩

theorem Runner.languageExit (r : Runner) {arguments : List Argument} {text : String} {n : Int}
    {e e' : Engine} (o : Outcome)
    (read : (Command.readLanguage arguments).run e = (.ok (.other ["EXIT", text]), e'))
    (script : e'.options.mode = .script) (number : Text.trimmedInt? text = some n) :
    r.language arguments o e = .ok ((true, o.request (.exiting (n.bmod (Text.bitBound 32)))),
      e'.logged (.asked (.exiting (n.bmod (Text.bitBound 32))) [])) := by
  have asks : Command.exitRun [text] e' =
      (.transferred (.exiting (n.bmod (Text.bitBound 32))) true, e') := by
    unfold Command.exitRun
    simp only [number]
    change (if e'.options.mode = .project then Step.fatal "EXIT can be used only in SCRIPT mode"
      else pure (.transferred (.exiting (n.bmod (Text.bitBound 32))) true)) e' = _
    rw [script]
    rfl
  unfold language
  have reading {k : Except Verdict Command.LanguageRequest → Run (Bool × Outcome)} :
      ((Command.readLanguage arguments).run.lift >>= k) e = k (.ok (.other ["EXIT", text])) e' := by
    change k ((Command.readLanguage arguments).run e).1 ((Command.readLanguage arguments).run e).2 = _
    rw [read]
  refine reading.trans ?_
  change Verdict.settle (Command.exitRun [text] e').1 o (Command.exitRun [text] e').2 = _
  rw [asks]
  rfl

/-- Once the script asks for its end, no command is run any more, deferred calls at most come up
in a run that has to stop, and the run comes to an answer: the code that was asked for if the exit
has left a file, and 1 if it was lost, in a call that failed or with a file that ended in a run that
has to stop. -/
theorem exitEndsScript (options : Options) (platform : Platform)
    (environment : List (String × String)) (path source : String) (fuel : Nat) :
    let start := Engine.start { options with mode := .script } platform environment
    let run := (Runner.ofFuel fuel).runSource path source
    (∀ (arguments : List Argument) (text : String) (n : Int) (o : Outcome) (e e' : Engine),
      (Command.readLanguage arguments).run e = (.ok (.other ["EXIT", text]), e') →
      e'.options.mode = .script → Text.trimmedInt? text = some n →
      let code := n.bmod (Text.bitBound 32)
      (Runner.ofFuel fuel).language arguments o e =
        .ok ((true, o.request (.exiting code)), e'.logged (.asked (.exiting code) []))) ∧
    ∀ code values blocks later earlier,
      (run.state start).log = later ++ ⟨.asked (.exiting code) values, blocks⟩ :: earlier →
      (∀ entry ∈ earlier, entry.event ≠ .deferredBegun) →
      (∀ entry ∈ later, ∀ c, entry.event ≠ .dispatched c) ∧
      ((∃ entry ∈ later, entry.event = .deferredBegun) → (run.state start).fatal = true) ∧
      match run start with
      | .ok (.ok answer, e) => (fate later = .left ∧ answer = code) ∨
          (fate later = .lost ∧ answer = 1 ∧ e.fatal = true)
      | .ok (.error _, _) => False
      | .error _ => False := by
  intro start run
  refine ⟨fun arguments text n o e e' read script number =>
    Runner.languageExit _ o read script number, ?_⟩
  intro code values blocks later earlier log own
  obtain ⟨ready, early⟩ := scriptExitStart options platform environment
  have ends := Runner.sourceEnds (scriptExit.runs fuel) path source ready trivial early
  have kept : (run.state start).KeepsExit :=
    ends.state (fun _ _ answered => scriptExit.stop answered.1.holds)
      fun _ stopped => stopped.stopped
  have exit := Course.ofExit own (log ▸ kept.fine)
  obtain ⟨idle, deferred, known, begun⟩ := Course.since exit (log ▸ kept.fine)
  rw [← log] at known
  refine ⟨idle, fun late => kept.deferred code _ (begun late ▸ known), ?_⟩
  cases ended : run start with
  | error halted =>
    obtain ⟨halt, e⟩ := halted
    have here : run.state start = e := by rw [Run.state, ended]
    refine (ends.error ended).early ?_
    show (Course.of e.log).Over
    rw [← here, known]
    trivial
  | ok result =>
    obtain ⟨answer, e⟩ := result
    have here : run.state start = e := by rw [Run.state, ended]
    rw [here] at known log
    cases answer with
    | error error =>
      have same : e = start := (Runner.refusedSource ended).1
      rw [same, Engine.freshLog { options with mode := .script }] at log
      cases later <;> cases log
    | ok answer =>
      obtain ⟨ready, answers⟩ := ends.ok ended
      rw [answers answer rfl]
      exact ready.holds.answer known

theorem exitFromBranch :
    let run := (Runner.ofFuel 9).runSource "a.cmake"
      "if(TRUE)\ncmake_language(EXIT 3)\nendif()\nset(a b)\n"
    let start := Engine.start { mode := .script } {} []
    (Runner.ofFuel 9).language [⟨"EXIT", .bracket, 1⟩, ⟨"4294967299", .bracket, 1⟩] {} start =
      .ok ((true, { exitCode := some 3 }), start.logged (.asked (.exiting 3) [])) ∧
    ∃ values blocks later earlier,
      (run.state start).log = later ++ ⟨.asked (.exiting 3) values, blocks⟩ :: earlier ∧
      (∀ entry ∈ later, ∀ c, entry.event ≠ .dispatched c) ∧
      ∃ e, run start = .ok (.ok 3, e) := by
  intro run start
  have ends := exitEndsScript {} {} [] "a.cmake"
    "if(TRUE)\ncmake_language(EXIT 3)\nendif()\nset(a b)\n" 9
  constructor
  · have number : Text.trimmedInt? "4294967299" = some 4294967299 := by decide +kernel
    exact ends.1 _ _ _ {} start start rfl rfl number
  · let log := (run.state start).log.span (·.event != .asked (.exiting 3) [])
    have checked : ((run.state start).log =
          log.1 ++ ⟨.asked (.exiting 3) [], ⟨[], [0]⟩⟩ :: log.2.tail ∧
        (∀ entry ∈ log.2.tail, entry.event ≠ .deferredBegun)) ∧
        (run start).toOption.bind (·.1.toOption) = some 3 := by decide +kernel
    obtain ⟨⟨logged, own⟩, answered⟩ := checked
    obtain ⟨idle, -⟩ := ends.2 3 _ _ _ _ logged own
    refine ⟨_, _, _, _, logged, idle, ?_⟩
    clear_value run start
    cases ended : run start with
    | error =>
      rw [ended] at answered
      cases answered
    | ok result =>
      obtain ⟨_ | code, e⟩ := result <;> rw [ended] at answered <;> cases answered
      exact ⟨e, rfl⟩

example : ((Runner.ofFuel 9).runSource "a.cmake"
    "function(f)\nblock(SCOPE_FOR POLICIES)\ncmake_policy(PUSH)\nendblock()\ncmake_language(EXIT 3)\nendfunction()\nf()\n"
    (Engine.start { mode := .script } {} []) matches .ok (.ok 1, _)) = true := by decide +kernel

end CMakeScript
