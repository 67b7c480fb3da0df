import CMakeScript.Proofs.PolicyView
import Mathlib.Logic.Function.Basic
/-! Scopes share the policy frames of the scopes that they were opened in, but each drops only the
frames that were pushed in itself. Which scope a frame was pushed in is told by an `owner`. -/
namespace CMakeScript
namespace PolicyView

inductive Pushed (frames : Arena Bool) (mine : Nat → Prop) (bound : Nat) : Nat → Nat → Prop where
  | none : Pushed frames mine bound bound 0
  | more {top up n : Nat} {weak : Bool} (here : frames.node? top = some (up, weak))
      (own : mine top) (inside : top ≠ bound) (older : up = bound ∨ up < top)
      (rest : Pushed frames mine bound up n) : Pushed frames mine bound top (n + 1)

namespace Pushed

variable {frames : Arena Bool} {mine mine' : Nat → Prop} {bound top n : Nat}

theorem atBound (pushed : Pushed frames mine bound top n) : top = bound ↔ n = 0 := by
  cases pushed with
  | none => simp
  | more _ _ inside => simp [inside]

theorem agree {frames' : Arena Bool} (pushed : Pushed frames mine bound top n)
    (same : ∀ i ≤ top, i ≤ frames.size → mine i → frames'.node? i = frames.node? i)
    (still : ∀ i ≤ top, i ≤ frames.size → mine i → mine' i) :
    Pushed frames' mine' bound top n := by
  induction pushed with
  | none => exact .none
  | @more top up n weak here own inside older rest ih =>
    have known := (Arena.nodeBounds here).2
    refine .more ((same top (Nat.le_refl _) known own).trans here)
      (still top (Nat.le_refl _) known own) inside older ?_
    obtain rfl | older := older
    · obtain rfl := rest.atBound.mp rfl
      exact .none
    · exact ih (fun i below => same i (by omega)) fun i below => still i (by omega)

theorem push (pushed : Pushed frames mine bound top n)
    (still : ∀ i ≤ frames.size, mine i → mine' i) (up : Nat) (weak : Bool) :
    Pushed (frames.push up weak).1 mine' bound top n :=
  pushed.agree (fun _ _ known _ => Arena.nodePushOld known) fun i _ known => still i known

theorem pushOwn (pushed : Pushed frames mine bound top n)
    (still : ∀ i ≤ frames.size, mine i → mine' i) (own : mine' (frames.size + 1)) (weak : Bool) :
    ∃ k, Pushed (frames.push top weak).1 mine' bound (frames.size + 1) k ∧
      (bound ≤ frames.size → k = n + 1) := by
  by_cases reused : frames.size + 1 = bound
  · refine ⟨0, ?_, fun known => by omega⟩
    rw [reused]
    exact .none
  · refine ⟨n + 1, .more (Arena.nodePushNew ..) own reused ?_ (pushed.push still top weak),
      fun _ => rfl⟩
    cases pushed with
    | none => exact .inl rfl
    | more here => exact .inr (Nat.lt_succ_of_le (Arena.nodeBounds here).2)

theorem pop (pushed : Pushed frames mine bound top n) {dropped : Nat} (other : ¬mine dropped) :
    Pushed (frames.pop dropped).1 mine bound top n := by
  refine pushed.agree (fun i _ _ own => Arena.nodePopOther _ ?_) fun _ _ _ own => own
  rintro rfl
  exact other own

theorem own (pushed : Pushed frames mine bound top n) (inside : top ≠ bound) : mine top := by
  cases pushed with
  | none => exact absurd rfl inside
  | more _ own => exact own

theorem popOwn (pushed : Pushed frames mine bound top n) (inside : top ≠ bound) :
    Pushed (frames.pop top).1 mine bound (frames.parent top) (n - 1) := by
  cases pushed with
  | none => exact absurd rfl inside
  | @more _ up n weak here _ _ older rest =>
    rw [Arena.parentOfNode here, Nat.add_sub_cancel]
    obtain rfl | older := older
    · obtain rfl := rest.atBound.mp rfl
      exact .none
    · exact rest.agree (fun i below _ _ => Arena.nodePopOther _ (by omega)) fun _ _ _ own => own

theorem known (pushed : Pushed frames mine bound top n) (boundKnown : frames.contains bound = true) :
    frames.contains top = true := by
  cases pushed with
  | none => exact boundKnown
  | more here => exact Arena.containsIff.mpr (Arena.nodeBounds here)

theorem boundBelow (pushed : Pushed frames mine bound top n) (falling : frames.Falling) :
    bound ≤ top := by
  induction pushed with
  | none => exact Nat.le_refl bound
  | more here _ _ _ _ ih =>
    have := falling here
    omega

end Pushed
end PolicyView

theorem PolicyView.editStill (v : PolicyView) (id : Nat) {e : ScopeEdit}
    (still : e.movesFrames = false) : v.edit id e = v := by
  cases found : v.scopes.get? id with
  | none => exact editNone found e
  | some stand =>
    simp only [edit, found]
    cases e <;> first | rfl | cases still

namespace ScopeUse

/-- Uses of `c` and of scopes that were opened under it. Scopes are named in the order in which they
are opened, and `c` itself stays open. -/
def Under (c : Nat) : ScopeUse → Prop
  | enter origin _ | enterDirectory origin => c ≤ origin
  | leave id | edit id .markPolicyScope => c < id
  | edit id e => e.movesFrames = true → c ≤ id
  | _ => True

/-- The number of frames that were pushed in `c` and not popped, when `n` were so before. -/
def pending (c n : Nat) : ScopeUse → Nat
  | edit id (.pushPolicy _ _) => if id = c then n + 1 else n
  | edit id .popPolicy => if id = c then n - 1 else n
  | _ => n

end ScopeUse

namespace PolicyView

structure Since (start : PolicyView) (c pending : Nat) (owner : Nat → Nat) (v : PolicyView) :
    Prop where
  scopes : ∀ id < c, v.scopes.get? id = start.scopes.get? id
  frames : ∀ i ≤ start.frames.size, v.frames.node? i = start.frames.node? i
  size : start.frames.size ≤ v.frames.size
  own : ∀ {id top bound}, c ≤ id → v.scopes.get? id = some (top, bound) →
    ∃ n, Pushed v.frames (fun i => start.frames.size < i ∧ owner i = id) bound top n ∧
      (id = c → n = pending)
  here : ∃ top bound, v.scopes.get? c = some (top, bound) ∧ bound ≤ start.frames.size

namespace Since

variable {start v : PolicyView} {c pending : Nat} {owner : Nat → Nat}

theorem begun (top : Nat) (last : v.scopes.size = c) (here : v.scopes.get? c = some (top, top))
    (known : top ≤ v.frames.size) : Since v c 0 owner v where
  scopes _ _ := rfl
  frames _ _ := rfl
  size := Nat.le_refl _
  own {id top' bound} from_ found := by
    have bounds := Arena.getBounds found
    obtain rfl : id = c := by omega
    rw [here] at found
    cases found
    exact ⟨0, .none, fun _ => rfl⟩
  here := ⟨top, top, here, known⟩

theorem young (since : Since start c pending owner v) : c ≤ v.scopes.size := by
  obtain ⟨_, _, found, _⟩ := since.here
  exact (Arena.getBounds found).2

theorem enter (since : Since start c pending owner v) (origin top : Nat) :
    Since start c pending owner (v.enter origin top) := by
  have young := since.young
  have old {id : Nat} (known : id ≤ v.scopes.size) :
      (v.enter origin top).scopes.get? id = v.scopes.get? id := by
    rw [PolicyView.enter, Arena.getPush, if_neg (by omega)]
  refine ⟨fun id below => (old (by omega)).trans (since.scopes id below), since.frames, since.size,
    fun {id top' bound} from_ found => ?_, ?_⟩
  · rw [PolicyView.enter, Arena.getPush] at found
    split at found
    · cases found
      exact ⟨0, .none, by omega⟩
    · exact since.own from_ found
  · obtain ⟨top', bound, found, known⟩ := since.here
    exact ⟨top', bound, (old young).trans found, known⟩

theorem enterDirectory (since : Since start c pending owner v) (origin top : Nat) :
    Since start c pending owner (v.enterDirectory origin top) := by
  have young := since.young
  have size := since.size
  have old {id : Nat} (known : id ≤ v.scopes.size) :
      (v.enterDirectory origin top).scopes.get? id = v.scopes.get? id := by
    rw [PolicyView.enterDirectory, Arena.getPush, if_neg (by omega)]
  refine ⟨fun id below => (old (by omega)).trans (since.scopes id below),
    fun i known => (Arena.nodePushOld (by omega)).trans (since.frames i known), ?_,
    fun {id top' bound} from_ found => ?_, ?_⟩
  · simp only [PolicyView.enterDirectory, Arena.sizePush]
    omega
  · rw [PolicyView.enterDirectory, Arena.getPush] at found
    split at found
    · cases found
      exact ⟨0, .none, by omega⟩
    · obtain ⟨n, pushed, count⟩ := since.own from_ found
      exact ⟨n, pushed.push (fun _ _ own => own) top false, count⟩
  · obtain ⟨top', bound, found, known⟩ := since.here
    exact ⟨top', bound, (old young).trans found, known⟩

theorem leave (since : Since start c pending owner v) {id : Nat} (inner : c < id)
    (last : v.scopes.isLast id = true) :
    Since start c pending owner { v with scopes := (v.scopes.pop id).1 } := by
  have other {i : Nat} (different : i ≠ id) : (v.scopes.pop id).1.get? i = v.scopes.get? i := by
    rw [Arena.getPop last, if_neg different]
  refine ⟨fun i below => (other (by omega)).trans (since.scopes i below), since.frames, since.size,
    fun {i top bound} from_ found => ?_, ?_⟩
  · rw [Arena.getPop last] at found
    split at found
    · cases found
    · exact since.own from_ found
  · obtain ⟨top, bound, found, known⟩ := since.here
    exact ⟨top, bound, (other (by omega)).trans found, known⟩

theorem hereMoved (since : Since start c pending owner v) (id top : Nat) :
    ∃ top' bound, (v.scopes.modify id fun (_, bound) => (top, bound)).get? c = some (top', bound) ∧
      bound ≤ start.frames.size := by
  obtain ⟨top', bound, here, known⟩ := since.here
  rw [Arena.getModify, here]
  split
  · exact ⟨top, bound, rfl, known⟩
  · exact ⟨top', bound, rfl, known⟩

theorem push (since : Since start c pending owner v) {id top bound : Nat} (inner : c ≤ id)
    (found : v.scopes.get? id = some (top, bound)) (settings : PolicySettings) (weak : Bool) :
    ∃ owner', Since start c (if id = c then pending + 1 else pending) owner'
      (v.edit id (.pushPolicy settings weak)) := by
  have size := since.size
  have fresh {i : Nat} (known : i ≤ v.frames.size) :
      Function.update owner (v.frames.size + 1) id i = owner i :=
    Function.update_of_ne (by omega) ..
  refine ⟨Function.update owner (v.frames.size + 1) id, ?_⟩
  simp only [edit, found]
  refine ⟨fun i below => ?_, fun i known => ?_, ?_, fun {i top' bound'} from_ there => ?_, ?_⟩
  · rw [Arena.getModify, if_neg (by omega), since.scopes i below]
  · rw [Arena.nodePushOld (by omega), since.frames i known]
  · rw [Arena.sizePush]
    omega
  · rw [Arena.getModify] at there
    split at there
    case isTrue same =>
      subst same
      rw [found] at there
      cases there
      obtain ⟨n, pushed, count⟩ := since.own inner found
      have still : ∀ j ≤ v.frames.size, (start.frames.size < j ∧ owner j = i) →
          start.frames.size < j ∧ Function.update owner (v.frames.size + 1) i j = i :=
        fun j known own => ⟨own.1, (fresh known).trans own.2⟩
      obtain ⟨k, more, counted⟩ :=
        pushed.pushOwn still ⟨by omega, Function.update_self ..⟩ weak
      refine ⟨k, more, fun isC => ?_⟩
      obtain ⟨_, bound', here, known⟩ := since.here
      rw [← isC, found] at here
      cases here
      rw [if_pos isC, counted (by omega), count isC]
    case isFalse other =>
      obtain ⟨n, pushed, count⟩ := since.own from_ there
      refine ⟨n, pushed.push (fun j known own => ⟨own.1, (fresh known).trans own.2⟩) top weak,
        fun isC => ?_⟩
      rw [if_neg (by omega), count isC]
  · exact since.hereMoved ..

theorem pop (since : Since start c pending owner v) {id top bound : Nat} (inner : c ≤ id)
    (found : v.scopes.get? id = some (top, bound)) :
    Since start c (if id = c then pending - 1 else pending) owner (v.edit id .popPolicy) := by
  obtain ⟨n, pushed, count⟩ := since.own inner found
  simp only [edit, found]
  by_cases atBound : top = bound
  · have none := pushed.atBound.mp atBound
    have same : (if id = c then pending - 1 else pending) = pending := by
      split
      case isTrue isC => rw [← count isC, none]
      case isFalse => rfl
    rw [same, if_pos atBound]
    exact since
  · have mine := pushed.own atBound
    rw [if_neg atBound]
    refine ⟨fun i below => ?_, fun i known => ?_, ?_, fun {i top' bound'} from_ there => ?_, ?_⟩
    · rw [Arena.getModify, if_neg (by omega), since.scopes i below]
    · rw [Arena.nodePopOther _ (by omega), since.frames i known]
    · cases last : v.frames.isLast top with
      | false => simpa [Arena.pop, last] using since.size
      | true =>
        have := (Arena.isLastIff.mp last).2
        rw [Arena.sizePop last]
        omega
    · rw [Arena.getModify] at there
      split at there
      case isTrue same =>
        subst same
        rw [found] at there
        cases there
        refine ⟨n - 1, pushed.popOwn atBound, fun isC => ?_⟩
        rw [if_pos isC, count isC]
      case isFalse other =>
        obtain ⟨k, kept, count⟩ := since.own from_ there
        refine ⟨k, kept.pop fun own => other (own.2.symm.trans mine.2), fun isC => ?_⟩
        rw [if_neg (by omega), count isC]
    · exact since.hereMoved ..

theorem mark (since : Since start c pending owner v) {id top bound : Nat} (inner : c < id)
    (found : v.scopes.get? id = some (top, bound)) :
    Since start c pending owner (v.edit id .markPolicyScope) := by
  simp only [edit, found]
  refine ⟨fun i below => ?_, since.frames, since.size, fun {i top' bound'} from_ there => ?_, ?_⟩
  · rw [Arena.getModify, if_neg (by omega), since.scopes i below]
  · rw [Arena.getModify] at there
    split at there
    case isTrue same =>
      subst same
      rw [found] at there
      cases there
      exact ⟨0, .none, fun isC => by omega⟩
    case isFalse => exact since.own from_ there
  · obtain ⟨top', bound', here, known⟩ := since.here
    exact ⟨top', bound', by rw [Arena.getModify, if_neg (by omega), here], known⟩

theorem step (since : Since start c pending owner v) {u : ScopeUse} {v' : PolicyView}
    (under : u.Under c) (stepped : v.Step u v') :
    ∃ owner', Since start c (u.pending c pending) owner' v' := by
  cases stepped with
  | still quiet =>
    cases u with
    | edit id e => exact absurd rfl (quiet id e)
    | _ => exact ⟨owner, since⟩
  | enter => exact ⟨owner, since.enter ..⟩
  | enterDirectory => exact ⟨owner, since.enterDirectory ..⟩
  | leave last => exact ⟨owner, since.leave under last⟩
  | edit id e =>
    cases found : v.scopes.get? id with
    | none =>
      have notC : id ≠ c := by
        rintro rfl
        obtain ⟨_, _, here, _⟩ := since.here
        rw [found] at here
        cases here
      rw [editNone found]
      cases e <;> exact ⟨owner, by simpa [ScopeUse.pending, notC] using since⟩
    | some stand =>
      obtain ⟨top, bound⟩ := stand
      cases e with
      | pushPolicy settings weak => exact since.push (under rfl) found settings weak
      | popPolicy => exact ⟨owner, since.pop (under rfl) found⟩
      | markPolicyScope => exact ⟨owner, since.mark under found⟩
      | _ =>
        rw [editStill v id rfl]
        exact ⟨owner, since⟩

theorem run {s : Scopes} (since : Since start c pending owner s.policyView) {uses : List ScopeUse}
    (under : ∀ u ∈ uses, u.Under c) : ∃ owner',
      Since start c (uses.foldl (ScopeUse.pending c) pending) owner' (s.uses uses).policyView := by
  induction uses generalizing s pending owner with
  | nil => exact ⟨owner, since⟩
  | cons u rest ih =>
    obtain ⟨owner', since⟩ := since.step (under u List.mem_cons_self) (u.viewApply s)
    exact ih since fun w member => under w (List.mem_cons_of_mem u member)

end Since
end PolicyView
end CMakeScript
