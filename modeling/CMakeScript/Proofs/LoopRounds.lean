import CMakeScript.Proofs.BranchBodies
import CMakeScript.Proofs.FileVariables
import CMakeScript.Proofs.LoopWords
import CMakeScript.Proofs.ScopeReturn
/-! Runs of loops over things. A loop goes through its rounds in turn until one of them asks for a
transfer other than a `continue`, and afterwards its variables have their values back. -/
namespace CMakeScript

def Pass.after : Option Transfer → Pass
  | none | some .continuing => next
  | some .breaking => left none
  | some t => left (some t)

theorem Pass.afterNext {t? : Option Transfer} :
    after t? = next ↔ t? = none ∨ t? = some .continuing := by
  rcases t? with - | (- | - | - | -) <;> simp [after]

theorem Pass.afterLive {t? : Option Transfer} : after t? ≠ fatal := by
  rcases t? with - | (- | - | - | -) <;> nofun

theorem Pass.forwardAfter (t? : Option Transfer) (o : Outcome) :
    (after t?).forward o = o.afterLoop t? := by
  rcases t? with - | (- | - | - | -) <;> rfl

theorem Run.okOfChecked {α β : Type} {x : Except (Halt × Engine) (α × Engine)}
    {f : α × Engine → β} {b : β} (checked : x.toOption.map f = some b) :
    ∃ a e, x = .ok (a, e) ∧ f (a, e) = b := by
  cases x with
  | error => cases checked
  | ok ended => exact ⟨ended.1, ended.2, rfl, Option.some.inj checked⟩

theorem Run.okBind {α β : Type} {m : Run α} {k : α → Run β} {e e' : Engine} {a : α}
    (first : m e = .ok (a, e')) : (m >>= k) e = k a e' := by
  change Except.bind (m e) _ = _
  rw [first]
  rfl

namespace Runner

variable {r : Runner} {body : List Command} {rows : List (List (String × Option String))}
  {e e' : Engine} {p : Pass} {t? : Option Transfer}

theorem BodyRuns.pass (runs : r.BodyRuns body e t? e') : r.pass body e = .ok (.after t?, e') := by
  induction runs with
  | done => rfl
  | @next c rest e e₁ e₂ result t? run silent live further ih =>
    have here : (get : Run Engine) e₁ = .ok (e₁, e₁) := rfl
    rw [Runner.pass, Run.okBind run]
    simp only [silent]
    rw [Run.okBind here, live]
    exact ih
  | @asks c rest e e₁ result t run asked =>
    rw [Runner.pass, Run.okBind run]
    cases t <;> simp only [asked] <;> rfl

theorem bodyRunsOf (ran : r.pass body e = .ok (p, e')) :
    p = .fatal ∧ e'.fatal = true ∨ ∃ t?, r.BodyRuns body e t? e' ∧ p = .after t? := by
  induction body generalizing e with
  | nil =>
    cases ran
    exact .inr ⟨none, .done, rfl⟩
  | cons c rest ih =>
    rw [Runner.pass] at ran
    obtain ⟨result, e₁, run, ran⟩ := Run.okOfBind ran
    cases asked : result.2.transfer? with
    | some t =>
      refine .inr ⟨some t, ?_⟩
      cases t <;> simp only [asked] at ran <;> cases ran <;> exact ⟨.asks run asked, rfl⟩
    | none =>
      simp only [asked] at ran
      obtain ⟨_, _, here, ran⟩ := Run.okOfBind ran
      cases here
      split at ran
      case isTrue stops =>
        cases ran
        exact .inl ⟨rfl, stops⟩
      case isFalse live =>
        refine (ih ran).imp_right fun ⟨t?, further, same⟩ => ⟨t?, .next run asked ?_ further, same⟩
        simpa using live

end Runner
namespace Engine

variable {e e' : Engine} {handles : List (Nat × Bool)} {start : Engine}

theorem Descends.shows (descends : start.Descends handles e)
    (given : List (String × Option String)) : (e.assignAll given).Shows given := by
  rintro before name value after rfl apart
  unfold assignAll
  rw [List.foldl_append, List.foldl_cons, normalAssignOthers after apart]
  have edits := Edits.assignAll before e
  have inside := descends.edits edits
  exact inside.housed.assigned inside.here name value

theorem Shows.named {names : List String} {f : String → Option String}
    (shows : e.Shows (names.map fun name => (name, f name))) {name : String}
    (member : name ∈ names) : e.normal? name = f name := by
  obtain ⟨behind, before, reversed, last⟩ :=
    List.eq_append_cons_of_mem (List.mem_reverse.mpr member)
  have split : names = before.reverse ++ name :: behind.reverse := by
    rw [← List.reverse_reverse names, reversed]
    simp
  refine shows (before.reverse.map fun name => (name, f name)) name (f name)
    (behind.reverse.map fun name => (name, f name)) (by rw [split]; simp) ?_
  simpa using last

theorem assignAllIs (given : List (String × Option String)) (e : Engine) :
    ∃ scopes, e.assignAll given = { e with scopes } := by
  unfold assignAll
  induction given generalizing e with
  | nil => exact ⟨e.scopes, rfl⟩
  | cons entry rest ih =>
    obtain ⟨name, _ | value⟩ := entry
    · exact ih (e.undefine name)
    · exact ih (e.define name value)

theorem endLoopIs (e : Engine) : ∃ log loops, e.endLoop = { e with log, loops } := by
  unfold endLoop closeLoop
  split
  · exact ⟨_, e.loops, rfl⟩
  · exact ⟨_, _, rfl⟩

theorem leaveLoopKeeps (e : Engine) (names : List String)
    (saved : List (String × Option String)) :
    (e.leaveLoop names saved).fatal = e.fatal ∧ (e.leaveLoop names saved).blocks = e.blocks ∧
      (e.leaveLoop names saved).cache = e.cache ∧
      (e.leaveLoop names saved).snapshot = e.snapshot ∧
      ∀ name, (e.leaveLoop names saved).normal? name = (e.assignAll saved).normal? name := by
  obtain ⟨scopes, assigned⟩ := assignAllIs saved e
  unfold leaveLoop
  obtain ⟨log, loops, ended⟩ := endLoopIs ((e.assignAll saved).logged (.loopLeft names))
  rw [ended, assigned]
  exact ⟨rfl, rfl, rfl, rfl, fun _ => rfl⟩

end Engine
namespace Runner

variable {r : Runner} {body : List Command} {rows : List (List (String × Option String))}
  {e e' : Engine} {p : Pass} {t? : Option Transfer} {g : Engine.Departure}

theorem passesCons (given : List (String × Option String)) (e : Engine) :
    r.passes (fun row e => e.assignAll row) body (given :: rows) e = (do
      let ended ← r.pass body (e.assignAll given)
      if ended.1 = .next then r.passes (fun row e => e.assignAll row) body rows ended.2
      else .ok ended) := by
  have assigned : (modify fun e => e.assignAll given : Run PUnit) e =
      .ok (⟨⟩, e.assignAll given) := rfl
  rw [passes, Run.okBind assigned]
  refine congrArg (Except.bind (r.pass body (e.assignAll given))) (funext fun ended => ?_)
  rcases ended with ⟨- | - | -, e'⟩ <;> rfl

theorem LoopRuns.passes (runs : r.LoopRuns body rows e t? e') :
    r.passes (fun row e => e.assignAll row) body rows e = .ok (.after t?, e') := by
  induction runs with
  | done => rfl
  | @next given rest e e₁ e₂ t? left? shows runs goes further ih =>
    rw [passesCons, runs.pass]
    exact (if_pos (Pass.afterNext.mpr goes)).trans ih
  | @leaves given rest e e₁ t shows runs left =>
    rw [passesCons, runs.pass]
    exact if_neg (Pass.afterNext.not.mpr (by simpa using left))

theorem passesLive (runs : scopeReturn.Runs r) (holds : scopeReturn.Holds g e)
    (ran : r.passes (fun row e => e.assignAll row) body rows e = .ok (p, e'))
    (live : e'.fatal = false) : e.fatal = false := by
  by_contra stops
  have stopped : scopeReturn.Holds ⟨e, []⟩ e := ⟨.stopped (by simpa using stops), holds.tidy⟩
  have ended := (passesEnds runs.conduct (fun row e => .assignAll row e) body rows stopped).ok ran
  have same := ended.holds.stays (by simpa using stops)
  exact Bool.false_ne_true (live.symm.trans same)

theorem loopRunsOf (runs : scopeReturn.Runs r) (holds : scopeReturn.Holds g e)
    (ran : r.passes (fun row e => e.assignAll row) body rows e = .ok (p, e'))
    (live : e'.fatal = false) : ∃ t?, r.LoopRuns body rows e t? e' ∧ p = .after t? := by
  induction rows generalizing e with
  | nil =>
    cases ran
    exact ⟨none, .done, rfl⟩
  | cons given rest ih =>
    -- a `continue` can come with a fatal error and the loop still goes on, so this needs the end
    have running := passesLive runs holds ran live
    obtain stops | descends := holds.holds
    · cases running.symm.trans stops
    have shows := descends.shows given
    have inside : scopeReturn.Holds g (e.assignAll given) :=
      holds.moves trivial (.assignAll given e)
    rw [passesCons] at ran
    obtain ⟨⟨p₁, e₁⟩, one, ran⟩ := CMakeScript.okOfBind ran
    have after : scopeReturn.Holds g e₁ :=
      Discipline.sameStatus ((passEnds runs.conduct body nofun inside).ok one).1
    obtain ⟨rfl, stops⟩ | ⟨t?, taken, rfl⟩ := bodyRunsOf one
    · cases ran
      cases live.symm.trans stops
    · by_cases goes : Pass.after t? = .next
      · obtain ⟨left?, further, same⟩ := ih after ((if_pos goes).symm.trans ran)
        exact ⟨left?, .next shows taken (Pass.afterNext.mp goes) further, same⟩
      · cases (if_neg goes).symm.trans ran
        rw [Pass.afterNext, not_or] at goes
        obtain ⟨t, rfl⟩ := Option.ne_none_iff_exists'.mp goes.1
        exact ⟨some t, .leaves shows taken (by simpa using goes.2), rfl⟩

theorem passesMap {α β : Type} (prepare : β → Engine → Engine) (f : α → β) (body : List Command)
    (things : List α) :
    r.passes (fun a => prepare (f a)) body things = r.passes prepare body (things.map f) := by
  induction things with
  | nil => rfl
  | cons a rest ih => simp only [Runner.passes, List.map_cons, ih]

theorem foreachOverMap {α β : Type} (names : List String) (prepare : β → Engine → Engine)
    (f : α → β) (things : List α) (body : List Command) (o : Outcome) :
    r.foreachOver names (fun a => prepare (f a)) things body o =
      r.foreachOver names prepare (things.map f) body o := by
  unfold foreachOver
  simp only [passesMap]

theorem foreachOverIs (names : List String) (o : Outcome) (e : Engine) :
    r.foreachOver names (fun row e => e.assignAll row) rows body o e = (do
      let ended ← r.passes (fun row e => e.assignAll row) body rows (e.logged .loopEntered)
      .ok (ended.1.forward o, if ended.1 = .fatal then ended.2.endLoop
        else ended.2.leaveLoop names (names.map fun name => (name, valueToRestore e name)))) := by
  refine congrArg (Except.bind (r.passes (fun row e => e.assignAll row) body rows
    (e.logged .loopEntered))) (funext fun ended => ?_)
  rcases ended with ⟨- | - | -, e'⟩ <;> rfl

theorem valueToRestoreNormal (restoring : e.policy .cmp0124 = .new) (name : String) :
    valueToRestore e name = e.normal? name := by
  unfold valueToRestore Engine.value Engine.definition?
  cases normal : e.normal? name <;> simp [restoring]

theorem foreachOverOf {names : List String} {o o' : Outcome} (runs : scopeReturn.Runs r)
    (ready : scopeReturn.Ready g e) (restoring : e.policy .cmp0124 = .new)
    (ran : r.foreachOver names (fun row e => e.assignAll row) rows body o e = .ok (o', e'))
    (free : e'.Free) (live : e'.fatal = false) :
    (∃ t? e₁, r.LoopRuns body rows (e.logged .loopEntered) t? e₁ ∧ o' = o.afterLoop t? ∧
      e'.cache = e₁.cache) ∧
    e'.snapshot = e.snapshot ∧ ∀ name ∈ names, e'.normal? name = e.normal? name := by
  have begun : scopeReturn.Holds ⟨e, []⟩ (e.logged .loopEntered) :=
    ⟨(Engine.departure ready).holds.other rfl rfl rfl rfl id,
      fun strict => (ready.tidy strict).sameOpen (.logged e fun outside => outside)⟩
  let saved := names.map fun name => (name, valueToRestore e name)
  rw [foreachOverIs] at ran
  obtain ⟨⟨p, e₁⟩, passed, ended⟩ := CMakeScript.okOfBind ran
  simp only [Except.ok.injEq, Prod.mk.injEq] at ended
  obtain ⟨rfl, ended⟩ := ended
  obtain ⟨fatal, blocks, cache, snapshot, normal⟩ := e₁.leaveLoopKeeps names saved
  have running : e₁.fatal = false := by
    rw [← ended] at live
    split at live
    · obtain ⟨log, loops, left⟩ := Engine.endLoopIs e₁
      rw [left] at live
      exact live
    · exact fatal.symm.trans live
  obtain ⟨t?, loop, rfl⟩ := loopRunsOf runs begun passed running
  obtain rfl : e₁.leaveLoop names saved = e' := (if_neg Pass.afterLive).symm.trans ended
  have after := (passesEnds runs.conduct (fun row e => .assignAll row e) body rows begun).ok passed
  obtain stops | descends := after.holds
  · cases running.symm.trans stops
  have closed : e₁.Free := (congrArg BlockStack.blocks blocks).symm.trans free
  have back : e₁.snapshot = e.snapshot := after.holds.back closed running
  exact ⟨⟨t?, e₁, loop, Pass.forwardAfter t? o, cache⟩, snapshot.trans back, fun name member =>
    (normal name).trans (((descends.shows saved).named member).trans
      (valueToRestoreNormal restoring name))⟩

theorem foreachOverRuns (names : List String) (o : Outcome)
    (loop : r.LoopRuns body rows (e.logged .loopEntered) t? e') :
    ∃ e₁, r.foreachOver names (fun row e => e.assignAll row) rows body o e =
      .ok (o.afterLoop t?, e₁) ∧ e₁.blocks = e'.blocks ∧ e₁.fatal = e'.fatal := by
  obtain ⟨fatal, blocks, -⟩ :=
    e'.leaveLoopKeeps names (names.map fun name => (name, valueToRestore e name))
  refine ⟨_, ?_, blocks, fatal⟩
  rw [foreachOverIs, loop.passes, ← Pass.forwardAfter]
  exact congrArg (fun e => Except.ok (_, e)) (if_neg Pass.afterLive)

end Runner

namespace Loop

theorem roundsOver (e : Engine) (name : String) (items : List String) :
    (each name items).rounds e = items.map fun item => [(name, some item)] := by
  refine List.ext_getElem (by simp [rounds, count]) fun k known _ => ?_
  have inside : k < items.length := by simpa [rounds, count] using known
  simp [rounds, round, variableNames, inside]

theorem roundsZipped (e : Engine) (names lists : List String) :
    (zipped names lists).rounds e =
      (Runner.rows (lists.map (Command.elements e))).map
        ((zipped names lists).variableNames.zip ·) := by
  unfold rounds Runner.rows
  rw [List.foldl_max, Nat.zero_max, List.map_map, List.map_map]
  simp only [count, Function.comp_def, List.map_map]
  rfl

end Loop
namespace Runner

variable {r : Runner}

theorem replayRounds {words : List String} {loop : Loop} {b : OpenBlock Block} {e₀ : Engine}
    (given : Loop.Given e₀ words loop b.block) (o : Outcome) (e : Engine) :
    r.replay b o e = (do return (true, ← r.foreachOver loop.variableNames
      (fun row e => e.assignAll row) (loop.rounds e) b.body o) : Run _) e := by
  have single {name : String} {items words : List String} {count : Nat}
      (block : b.block = .foreachLoop (name :: words) count false)
      (dropped : (name :: words).drop count = items) :
      r.replay b o e = (do return (true, ← r.foreachOver [name]
        (fun row e => e.assignAll row) ((Loop.each name items).rounds e) b.body o) : Run _) e := by
    rw [Loop.roundsOver, ← foreachOverMap, replay, block]
    dsimp only [foreachLoop]
    rw [dropped]
    rfl
  generalize same : b.block = block at given
  cases given with
  | plain => exact single same rfl
  | range => exact single same rfl
  | named => exact single same rfl
  | unnamed => exact single same rfl
  | @zipped names lists others plain paired =>
    have reads : r.foreachLoop (names ++ lists) names.length true b.body o e =
        r.foreachOver (Loop.zipped names lists).variableNames
          (assignRow (Loop.zipped names lists).variableNames)
          (rows (lists.map (Command.elements e))) b.body o e := by
      have taken : (names ++ lists).take names.length = names := List.take_left
      have dropped : (names ++ lists).drop names.length = lists := List.drop_left
      have here : (get : Run Engine) e = .ok (e, e) := rfl
      unfold foreachLoop foreachRows
      rw [if_pos rfl, taken, dropped, Run.okBind here, List.length_map]
      rfl
    rw [Loop.roundsZipped, ← foreachOverMap, replay, same]
    exact congrArg (Except.bind · fun ended => .ok ((true, ended.1), ended.2)) reads

/-- A loop that is opened is given by its words, or has no variable. It goes through its rounds, and
a run of it that does not have to stop ends in the scope of the loop, where the variables have their
values back. What is seen of one that had none is up to the cache. -/
theorem foreachRunsRounds (fuel : Nat) {words : List String} {loop : Loop} {block : Block}
    {e₀ e : Engine} {commands : List Command} {closing : Command} {b : OpenBlock Block}
    {g : Engine.Departure} (given : Loop.Given e₀ words loop block)
    (captured : ((e₀.openLoop.openBlock block "foreach" "endforeach").blocks.offerAll
      (commands ++ [closing])).2 = List.replicate commands.length .recorded ++ [.closed b])
    (ready : scopeReturn.Ready g e) (restoring : e.policy .cmp0124 = .new) :
    let Runs := (ofFuel fuel).LoopRuns commands (loop.rounds e) (e.logged .loopEntered)
    (∀ (words : List String) (e₀ : Engine), (Command.foreachLoop words e₀).2.blocks ≠ e₀.blocks →
      ∃ block, (block = .foreachLoop [] 0 false ∨ ∃ loop, Loop.Given e₀ words loop block) ∧
        Command.foreachLoop words e₀ =
          (.done, e₀.openLoop.openBlock block "foreach" "endforeach")) ∧
    Command.foreachLoop words e₀ =
      (.done, e₀.openLoop.openBlock block "foreach" "endforeach") ∧
    (∀ (o : Outcome) {t? : Option Transfer} {e₁ : Engine}, Runs t? e₁ →
      ∃ e', (ofFuel fuel).replay b o e = .ok ((true, o.afterLoop t?), e') ∧
        e'.blocks = e₁.blocks ∧ e'.fatal = e₁.fatal) ∧
    ∀ {o : Outcome} {result : Bool × Outcome} {e' : Engine},
      (ofFuel fuel).replay b o e = .ok (result, e') → e'.Free → e'.fatal = false →
      (∃ t? e₁, Runs t? e₁ ∧ result = (true, o.afterLoop t?) ∧ e'.cache = e₁.cache) ∧
      e'.snapshot = e.snapshot ∧ ∀ name ∈ loop.variableNames, e'.normal? name = e.normal? name ∧
        e'.definition? name = (e.normal? name).or (e'.cache.value? name) := by
  intro Runs
  have apart : "foreach" ≠ "endforeach" := by decide
  obtain ⟨-, -, taken⟩ := BlockStack.closedAfter rfl apart Nat.one_pos captured
  have body : b.body = commands := by simp [taken, OpenBlock.taking, OpenBlock.body]
  have known : Loop.Given e₀ words loop b.block := by
    rw [taken]
    exact given
  refine ⟨fun words e₀ => Command.openedGiven, Command.givenOpens given, fun o t? e₁ loops => ?_,
    fun {o result e'} ran free live => ?_⟩
  · obtain ⟨e', run, blocks, fatal⟩ := foreachOverRuns loop.variableNames o loops
    refine ⟨e', ?_, blocks, fatal⟩
    rw [replayRounds known, body, Run.okBind run]
    rfl
  · rw [replayRounds known, body] at ran
    obtain ⟨o', e₁, run, same⟩ := Run.okOfBind ran
    cases same
    obtain ⟨⟨t?, e₁, loops, rfl, cache⟩, back, restored⟩ :=
      foreachOverOf (scopeReturn.runs fuel) ready restoring run free live
    exact ⟨⟨t?, e₁, loops, rfl, cache⟩, back, fun name member =>
      ⟨restored name member, Engine.definitionOfNormal (restored name member)⟩⟩

theorem zippedLoopLeft :
    let c (name : String) (words : List String) : Command :=
      ⟨name, 1, 1, words.map (⟨·, .unquoted, 1⟩)⟩
    let commands := [c "set" ["y", "z"], c "IF" ["x", "STREQUAL", "b"], c "break" [], c "endif" []]
    let start := Engine.start { mode := .script } {} []
    let e := (((start.setPolicy .cmp0124 .new).define "x" "k").define "l" "a;b;c").define "m" "1"
    let block : Block := .foreachLoop ["x", "y", "l", "m"] 2 true
    ∃ b e', ((e.openLoop.openBlock block "foreach" "endforeach").blocks.offerAll
        (commands ++ [c "EndForEach" []])).2 =
          List.replicate commands.length .recorded ++ [.closed b] ∧
      Command.foreachLoop ["x", "y", "IN", "ZIP_LISTS", "l", "m"] e =
        (.done, e.openLoop.openBlock block "foreach" "endforeach") ∧
      (ofFuel 9).replay b {} e = .ok ((true, {}), e') ∧
      (∃ t? e₁, (ofFuel 9).LoopRuns commands [[("x", some "a"), ("y", some "1")],
        [("x", some "b"), ("y", none)], [("x", some "c"), ("y", none)]] (e.logged .loopEntered)
        t? e₁ ∧ (true, {}) = (true, ({} : Outcome).afterLoop t?) ∧ e'.cache = e₁.cache) ∧
      e'.snapshot = e.snapshot ∧ e'.normal? "x" = some "k" ∧ e'.normal? "y" = none := by
  intro c commands start e block
  have began : scopeReturn.Ready ⟨start, []⟩ start :=
    Engine.homeboundStart { mode := .script } {} []
  have edits : Edits start e :=
    (((Edits.setPolicy start .cmp0124 .new).trans (.define _ "x" "k")).trans
      (.define _ "l" "a;b;c")).trans (.define _ "m" "1")
  have ready := began.moves trivial (.live rfl edits)
  have others : "IN" ∉ ["x", "y"] := by decide
  have given : Loop.Given e ["x", "y", "IN", "ZIP_LISTS", "l", "m"]
      (.zipped ["x", "y"] ["l", "m"]) block :=
    .zipped others (by decide) fun _ => rfl
  let b : OpenBlock Block := ⟨block, "foreach", "endforeach", e.place, 0, commands.reverse⟩
  have captured : ((e.openLoop.openBlock block "foreach" "endforeach").blocks.offerAll
      (commands ++ [c "EndForEach" []])).2 =
        List.replicate commands.length .recorded ++ [.closed b] := by
    decide +kernel
  have new : e.policy .cmp0124 = .new := by decide +kernel
  have before : e.normal? "x" = some "k" ∧ e.normal? "y" = none := by decide +kernel
  have rounds : (Loop.zipped ["x", "y"] ["l", "m"]).rounds e = [[("x", some "a"), ("y", some "1")],
      [("x", some "b"), ("y", none)], [("x", some "c"), ("y", none)]] := by
    decide +kernel
  have checked : ((ofFuel 9).replay b {} e).toOption.map (fun ended =>
      (ended.1, ended.2.fatal, ended.2.blocks.blocks)) = some ((true, {}), false, []) := by
    decide +kernel
  obtain ⟨result, e', ran, same⟩ := Run.okOfChecked checked
  simp only [Prod.mk.injEq] at same
  obtain ⟨rfl, live, free⟩ := same
  obtain ⟨-, opens, -, comes⟩ := foreachRunsRounds 9 given captured ready new
  rw [rounds] at comes
  obtain ⟨loops, back, restored⟩ := comes ran free live
  exact ⟨b, e', captured, opens, ran, loops, back, (restored "x" (by decide)).1.trans before.1,
    (restored "y" (by decide)).1.trans before.2⟩

/-- What the body of a loop gives the cache is seen after it, where the variable had no value. -/
theorem cachedInLoopSeen :
    let c (name : String) (words : List String) : Command :=
      ⟨name, 1, 1, words.map (⟨·, .unquoted, 1⟩)⟩
    let e := (Engine.start { mode := .script } {} []).setPolicy .cmp0124 .new
    let block : Block := .foreachLoop ["x", "a"] 1 false
    ∃ b e', Command.foreachLoop ["x", "a"] e =
        (.done, e.openLoop.openBlock block "foreach" "endforeach") ∧
      ((e.openLoop.openBlock block "foreach" "endforeach").blocks.offerAll
        [c "set" ["x", "5", "CACHE", "STRING", "text"], c "endforeach" []]).2 =
          [.recorded, .closed b] ∧
      e.policy .cmp0124 = .new ∧ (ofFuel 9).replay b {} e = .ok ((true, {}), e') ∧ e'.Free ∧
      e'.fatal = false ∧ e.definition? "x" = none ∧ e'.definition? "x" = some "5" := by
  intro c e block
  let b : OpenBlock Block := ⟨block, "foreach", "endforeach", e.place, 0,
    [c "set" ["x", "5", "CACHE", "STRING", "text"]]⟩
  have captured : ((e.openLoop.openBlock block "foreach" "endforeach").blocks.offerAll
      [c "set" ["x", "5", "CACHE", "STRING", "text"], c "endforeach" []]).2 =
        [.recorded, .closed b] := by
    decide +kernel
  have before : e.policy .cmp0124 = .new ∧ e.definition? "x" = none := by decide +kernel
  have checked : ((ofFuel 9).replay b {} e).toOption.map (fun ended => (ended.1,
      ended.2.blocks.blocks, ended.2.fatal, ended.2.definition? "x")) =
        some ((true, {}), [], false, some "5") := by
    decide +kernel
  obtain ⟨result, e', ran, same⟩ := Run.okOfChecked checked
  simp only [Prod.mk.injEq] at same
  obtain ⟨rfl, free, live, shown⟩ := same
  exact ⟨b, e', Command.givenOpens (.plain (by decide) (by decide)), captured, before.1, ran, free,
    live, before.2, shown⟩

end Runner
end CMakeScript
