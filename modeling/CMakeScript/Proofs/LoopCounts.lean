import CMakeScript.Proofs.Steady
import Mathlib.Data.List.Forall2
/-! The counts of open loops. Every open block stands for what it put on the counts, which are taken
off again when it ends: one more in the innermost count for a loop, a count of its own for a block
with variables. The counts are never above what is open; they fall below it where a loop ends in a
count that was begun after it. -/
namespace CMakeScript

namespace LoopCounts

def AtMost (counts bound : List Nat) : Prop := List.Forall₂ (· ≤ ·) counts bound

def more : List Nat → List Nat
  | [] => []
  | n :: rest => (n + 1) :: rest

def fewer : List Nat → List Nat
  | [] => []
  | n :: rest => (n - 1) :: rest

def ended : List Nat → List Nat
  | _ :: n :: rest => n :: rest
  | counts => counts

variable {counts bound : List Nat}

theorem AtMost.refl (counts : List Nat) : AtMost counts counts := List.forall₂_refl counts

theorem AtMost.more (most : AtMost counts bound) : AtMost (more counts) (more bound) := by
  cases most with
  | nil => exact .nil
  | cons here rest => exact .cons (Nat.succ_le_succ here) rest

theorem AtMost.fewer (most : AtMost counts (LoopCounts.more bound)) : AtMost (fewer counts) bound := by
  cases bound with
  | nil =>
    cases most
    exact .nil
  | cons n rest =>
    cases most with
    | cons here rest => exact .cons (Nat.sub_le_of_le_add here) rest

theorem AtMost.widen (most : AtMost counts bound) : AtMost counts (LoopCounts.more bound) := by
  cases most with
  | nil => exact .nil
  | cons here rest => exact .cons (Nat.le_succ_of_le here) rest

theorem AtMost.begun (most : AtMost counts bound) : AtMost (0 :: counts) (0 :: bound) :=
  List.Forall₂.cons (Nat.le_refl 0) most

theorem AtMost.ended {n : Nat} (most : AtMost counts (n :: bound)) (outer : bound ≠ []) :
    AtMost (ended counts) bound := by
  obtain ⟨m, rest, rfl⟩ := List.exists_cons_of_ne_nil outer
  cases most with
  | cons _ below =>
    cases below with
    | cons here rest => exact .cons here rest

theorem AtMost.tail {n : Nat} (most : AtMost counts (n :: bound)) : AtMost counts.tail bound := by
  cases most with
  | cons _ below => exact below

theorem AtMost.zero (most : AtMost counts [0]) : counts = [0] := by
  cases most with
  | cons here rest =>
    cases rest
    rw [Nat.le_zero.mp here]

theorem AtMost.head {n : Nat} (most : AtMost counts (n :: bound)) : counts.headD 0 ≤ n := by
  cases most with
  | cons here => exact here

end LoopCounts
open LoopCounts

theorem Engine.loopsOpenLoop (e : Engine) : e.openLoop.loops = more e.loops := by
  cases counts : e.loops <;> simp [openLoop, counts, more]

theorem Engine.loopsCloseLoop (e : Engine) : e.closeLoop.loops = fewer e.loops := by
  cases counts : e.loops <;> simp [closeLoop, counts, fewer]

theorem Engine.loopsCloseBarrier (e : Engine) : e.closeLoopBarrier.loops = ended e.loops := by
  rcases counts : e.loops with _ | ⟨_, _ | ⟨_, _⟩⟩ <;> simp [closeLoopBarrier, counts, ended]

def Block.hidesLoops : Block → Bool
  | scope _ bindings _ => bindings.isSome
  | _ => false

def Block.counted (b : Block) (counts : List Nat) : List Nat :=
  if b.isLoop then more counts else if b.hidesLoops then 0 :: counts else counts

def countedBy (blocks : List (OpenBlock Block)) (counts : List Nat) : List Nat :=
  blocks.foldr (fun b counts => b.block.counted counts) counts

namespace Block

variable {b : Block} {counts : List Nat}

theorem countedLoop (repeats : b.isLoop = true) (counts : List Nat) :
    b.counted counts = more counts := if_pos repeats

theorem countedOther (single : b.isLoop = false) (shows : b.hidesLoops = false)
    (counts : List Nat) : b.counted counts = counts := by
  rw [counted, single, shows]
  rfl

theorem ordinaryShows (ordinary : b.isScope = false) : b.hidesLoops = false := by
  cases b with
  | scope => cases ordinary
  | _ => rfl

theorem countedSome (some : counts ≠ []) (b : Block) : b.counted counts ≠ [] := by
  unfold counted
  split
  · cases counts with
    | nil => exact some
    | cons => nofun
  · split
    · nofun
    · exact some

end Block

theorem countedBySome {counts : List Nat} (some : counts ≠ []) (blocks : List (OpenBlock Block)) :
    countedBy blocks counts ≠ [] := by
  induction blocks with
  | nil => exact some
  | cons b rest ih => exact b.block.countedSome ih

theorem countedByMore {blocks : List (OpenBlock Block)} {n : Nat} {rest : List Nat}
    (shows : ∀ b ∈ blocks, b.block.hidesLoops = false) :
    countedBy blocks (more (n :: rest)) = more (countedBy blocks (n :: rest)) := by
  induction blocks with
  | nil => rfl
  | cons b blocks ih =>
    have same := ih fun b member => shows b (List.mem_cons_of_mem _ member)
    have here := shows b (List.mem_cons_self ..)
    change b.block.counted (countedBy blocks _) = more (b.block.counted (countedBy blocks _))
    rw [same]
    cases repeats : b.block.isLoop with
    | true => rw [Block.countedLoop repeats, Block.countedLoop repeats]
    | false => rw [Block.countedOther repeats here, Block.countedOther repeats here]

theorem LoopCounts.AtMost.endedWithin {counts : List Nat} {blocks : List (OpenBlock Block)} {n : Nat}
    {rest : List Nat} (single : blocks.length ≤ 1)
    (most : AtMost counts (countedBy blocks (0 :: n :: rest))) :
    AtMost (LoopCounts.ended counts) (countedBy blocks (n :: rest)) := by
  rcases blocks with _ | ⟨b, _ | ⟨b', more⟩⟩
  · exact most.ended nofun
  · change AtMost _ (b.block.counted (n :: rest))
    change AtMost counts (b.block.counted (0 :: n :: rest)) at most
    cases repeats : b.block.isLoop with
    | true =>
      rw [Block.countedLoop repeats] at most ⊢
      have left : AtMost (LoopCounts.ended counts) (n :: rest) := most.ended nofun
      exact left.widen
    | false =>
      cases hides : b.block.hidesLoops with
      | true =>
        have own (counts : List Nat) : b.block.counted counts = 0 :: counts := by
          rw [Block.counted, repeats, hides]
          rfl
        rw [own] at most ⊢
        exact most.ended nofun
      | false =>
        rw [Block.countedOther repeats hides] at most ⊢
        exact most.ended nofun
  · simp at single

def Event.tellsLoops : Event → Bool
  | loopEntered | loopEnded | loopSought _ | called _ _ _ | functionLeft _ => true
  | _ => false

namespace Engine

def Unlooped (e e' : Engine) : Prop :=
  ∃ entries : List LogEntry, (∀ entry ∈ entries, entry.event.tellsLoops = false) ∧
    e'.log = entries ++ e.log

variable {e e' e'' : Engine}

namespace Unlooped

theorem same (log : e'.log = e.log) : e.Unlooped e' := ⟨[], nofun, log⟩

theorem trans (first : e.Unlooped e') (second : e'.Unlooped e'') : e.Unlooped e'' :=
  logJoined first second

theorem logged (e : Engine) {event : Event} (silent : event.tellsLoops = false) :
    e.Unlooped (e.logged event) :=
  ⟨[⟨event, e.blocks⟩], by simpa using silent, rfl⟩

theorem quiet (quiet : e.Quiet e') : e.Unlooped e' := by
  obtain ⟨entries, ofKind, log⟩ := quiet.log
  refine ⟨entries, fun entry member => ?_, log⟩
  have here := ofKind entry member
  generalize entry.event = event at here ⊢
  cases event <;> first | rfl | cases here

theorem turns (turns : Turns e e') : e.Unlooped e' := quiet (.turns turns)

end Unlooped

theorem loopsLogged (e : Engine) (event : Event) : (e.logged event).loops = e.loops := rfl

theorem loopsIssueAt (e : Engine) (kind : MessageKind) (text : String) (trace : Backtrace) :
    (e.issueAt kind text trace).loops = e.loops := by
  obtain ⟨nested, written, errorOccurred, issued, -⟩ := issueAtCases e kind text trace
  rw [issued]

theorem loopsChangeQueue (e : Engine) (i : Nat) (change : QueueChange) :
    (e.changeQueue i change).loops = e.loops := by
  unfold changeQueue
  split <;> rfl

theorem loopsNoteStop (e : Engine) : e.noteStop.loops = e.loops := by
  unfold noteStop
  split <;> rfl

theorem loopsEdits (edits : Edits e e') : e'.loops = e.loops := by
  induction edits with
  | refl => rfl
  | tail _ last ih =>
    refine Eq.trans ?_ ih
    cases last with
    | issue _ text trace => exact loopsIssueAt ..
    | display kind text =>
      unfold display
      split <;> rfl
    | lost _ error => exact loopsIssueAt ..
    | queue => exact loopsChangeQueue ..
    | _ => rfl

theorem loopsOpenScope (e : Engine) (create : Scopes → Nat → Except ScopeError (Scopes × Nat)) :
    (e.openScope create).2.loops = e.loops := by
  unfold openScope
  split
  · rfl
  · exact loopsIssueAt ..

theorem loopsCloseScope (e : Engine) (handle : ScopeHandle) (report : Bool) :
    (e.closeScope handle report).loops = e.loops := by
  unfold closeScope
  cases handle with
  | none => rfl
  | some id =>
    dsimp only
    split
    · exact loopsIssueAt ..
    case isFalse here =>
      have current := Decidable.not_not.mp here
      have dropped := loopsEdits (.dropPolicies (e.scopes.policies.size + 1) report current)
      split
      · exact dropped
      · exact (loopsIssueAt ..).trans dropped

theorem loopsPopPolicy (e : Engine) : e.popPolicy.2.loops = e.loops := loopsEdits (.popPolicy e)

theorem loopsOpenFunction (e : Engine) (file : String) (policies : PolicySettings) :
    (e.openFunction file policies).2.loops = 0 :: e.loops := by
  have opened := loopsOpenScope e (ScopeOpening.functionCall file).create
  exact (loopsEdits (.pushPolicy _ true policies)).trans (congrArg (0 :: ·) opened)

theorem loopsCloseBlock (e : Engine) (policies bindings : Option ScopeHandle)
    (propagate : List String) : (e.closeBlockScopes policies bindings propagate).loops =
      if bindings.isSome then ended e.loops else e.loops := by
  have inner : (e.closeBlockScopes none bindings propagate).loops =
      if bindings.isSome then ended e.loops else e.loops := by
    cases bindings with
    | none => rfl
    | some handle =>
      have raised : (e.raiseAll propagate).loops = e.loops := loopsEdits (.raiseAll e propagate)
      exact (loopsCloseScope ..).trans ((loopsCloseBarrier _).trans (congrArg ended raised))
  cases policies with
  | none => exact inner
  | some handle => exact ((loopsCloseScope ..).trans (loopsPopPolicy _)).trans inner

theorem abandonWithin {block : Block} {bound : List Nat} (some : bound ≠ [])
    (most : AtMost e.loops (block.counted bound)) : AtMost (e.abandon block).loops bound := by
  have lowered (most : AtMost e.loops (more bound)) : AtMost e.closeLoop.loops bound :=
    loopsCloseLoop e ▸ most.fewer
  cases block with
  | conditional => exact most
  | whileLoop => exact lowered most
  | foreachLoop => exact lowered most
  | definition => exact most
  | scope policies bindings propagate =>
    change AtMost (e.closeBlockScopes policies bindings propagate).loops bound
    rw [loopsCloseBlock]
    cases bindings with
    | none => exact most
    | some handle => exact most.ended some

theorem abandonAllWithin {blocks : List (OpenBlock Block)} {bound : List Nat} (some : bound ≠ [])
    (report : Bool) (most : AtMost e.loops (countedBy blocks bound)) :
    AtMost (e.abandonAll report blocks).loops bound := by
  induction blocks generalizing report e with
  | nil => exact most
  | cons b rest ih =>
    rw [Engine.abandonAll]
    split
    · refine ih false (abandonWithin (countedBySome some rest) ?_)
      rw [issue, loopsIssueAt]
      exact most
    · exact ih report (abandonWithin (countedBySome some rest) most)

def Within (around : List Nat) (e : Engine) : Prop :=
  AtMost e.loops (countedBy e.blocks.blocks around)

theorem openScopesCounted (kinds : Command.ScopeKinds) (propagated : List String) (e : Engine) :
    ∃ policies bindings, ∃ e₁ : Engine, e₁.blocks = e.blocks ∧
      e₁.loops = (Block.scope policies bindings propagated).counted e.loops ∧
      (Command.openScopes kinds propagated e).2 =
        e₁.openBlock (.scope policies bindings propagated) "block" "endblock" := by
  have outer : e.openPolicyScope.2.loops = e.loops :=
    (loopsEdits (.pushPolicy ..)).trans (loopsOpenScope ..)
  have inner (e : Engine) : e.openVariableScope.2.loops = 0 :: e.loops :=
    congrArg (0 :: ·) (loopsOpenScope e Scopes.createVariableScope)
  obtain ⟨policies, bindings, e₁, scopes, opened⟩ := Command.openScopesCases kinds propagated e
  refine ⟨policies, bindings, e₁, scopes.sameOpen.blocks, ?_, opened⟩
  cases scopes with
  | neither => rfl
  | policies => exact outer
  | bindings => exact inner e
  | both =>
    rw [inner, outer]
    rfl

namespace Within

variable {around : List Nat}

theorem opening (within : e.Within around) (opening : Opening e e') : e'.Within around := by
  cases opening with
  | @plain block opens closes ordinary single =>
    change AtMost e.loops (block.counted (countedBy e.blocks.blocks around))
    rw [Block.countedOther single (Block.ordinaryShows ordinary)]
    exact within
  | @loop block opens closes repeats =>
    change AtMost e.openLoop.loops (block.counted (countedBy e.openLoop.blocks.blocks around))
    rw [(SameOpen.counts (.openLoop e)).blocks, Block.countedLoop repeats, loopsOpenLoop]
    exact AtMost.more within
  | @scopes kinds propagated =>
    obtain ⟨policies, bindings, e₁, blocks, loops, opened⟩ := openScopesCounted kinds propagated e
    rw [opened]
    change AtMost e₁.loops ((Block.scope policies bindings propagated).counted
      (countedBy e₁.blocks.blocks around))
    rw [blocks, loops]
    cases bindings with
    | none => exact within
    | some handle => exact AtMost.begun within

theorem closeBarrier (within : e.Within around) (some : around ≠ []) (tidy : e.Tidy)
    (report : Bool) : (e.closeBarrier report).Within around := by
  rw [Within, (tidy.closeBarrier report).2]
  unfold Engine.closeBarrier
  rw [tidy.blocks.popBarrier]
  exact abandonAllWithin some report within

theorem endLoop {n : Nat} (within : e.Within (more (n :: around)))
    (shows : ∀ b ∈ e.blocks.blocks, b.block.hidesLoops = false) :
    e.endLoop.Within (n :: around) := by
  rw [Within, countedByMore shows] at within
  rw [Within, (SameOpen.endLoop e).blocks]
  exact loopsCloseLoop (e.logged .loopEnded) ▸ within.fewer

theorem closeBlockScopes {n : Nat} {bindings : Option ScopeHandle}
    (within : e.Within ((Block.scope none bindings []).counted (n :: around))) (tidy : e.Tidy)
    (policies : Option ScopeHandle) (propagate : List String) :
    (e.closeBlockScopes policies bindings propagate).Within (n :: around) := by
  rw [Within, (SameOpen.closeBlockScopes e policies bindings propagate).blocks, loopsCloseBlock]
  cases bindings with
  | none => exact within
  | some handle => exact AtMost.endedWithin tidy.blocks.single within

end Within
end Engine
end CMakeScript
