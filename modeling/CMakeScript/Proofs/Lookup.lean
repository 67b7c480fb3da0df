import CMakeScript.Variables
import CMakeScript.Proofs.Ancestors
import Std.Data.TreeMap.Lemmas
import Mathlib.Tactic.SplitIfs
/-! What a name means from a frame. The nearest binding counts, whatever is bound further up, and
the closure of a frame holds exactly the names that have a value there. -/
namespace CMakeScript

namespace Bindings

@[simp] theorem insertAt (b : Bindings) (name other : String) (value : Option String) :
    (b.insert name value)[other]? = if name = other then some value else b[other]? := by
  simp [Std.TreeMap.getElem?_insert]

theorem insertIfNewAt (b : Bindings) (name other : String) (value : Option String) :
    (b.insertIfNew name value)[other]? =
      b[other]?.or (if name = other then some value else none) := by
  rw [Std.TreeMap.getElem?_insertIfNew]
  by_cases same : name = other
  · subst same
    cases found : b[name]? <;> simp [Std.TreeMap.mem_iff_isSome_getElem?, found]
  · simp [same]

theorem insertNewAt (bindings : List (String × Option String)) (b : Bindings) (name : String) :
    (bindings.foldl (fun acc entry => acc.insertIfNew entry.1 entry.2) b)[name]? =
      b[name]?.or ((bindings.find? fun entry => entry.1 == name).map Prod.snd) := by
  induction bindings generalizing b with
  | nil => simp
  | cons entry rest ih =>
    rw [List.foldl_cons, ih, insertIfNewAt, List.find?_cons, Option.or_assoc]
    congr 1
    by_cases same : entry.1 = name
    · simp [same]
    · simp [same, beq_eq_false_iff_ne.mpr same]

theorem findToList (b : Bindings) (name : String) :
    (b.toList.find? fun entry => entry.1 == name).map Prod.snd = b[name]? := by
  cases found : b[name]? with
  | none =>
    rw [Option.map_eq_none_iff, List.find?_eq_none]
    intro entry member same
    have bound := Std.TreeMap.mem_toList_iff_getElem?_eq_some.mp (show (entry.1, entry.2) ∈ _ from member)
    rw [show entry.1 = name by simpa using same, found] at bound
    cases bound
  | some value =>
    have member := Std.TreeMap.mem_toList_iff_getElem?_eq_some.mpr found
    obtain ⟨entry, first⟩ := Option.isSome_iff_exists.mp
      (List.find?_isSome.mpr ⟨(name, value), member, by simp⟩ :
        (b.toList.find? fun entry => entry.1 == name).isSome)
    have same : entry.1 = name := by simpa using List.find?_some first
    have bound := Std.TreeMap.mem_toList_iff_getElem?_eq_some.mp
      (show (entry.1, entry.2) ∈ _ from List.mem_of_find?_eq_some first)
    rw [same, found] at bound
    rw [first, Option.map_some]
    exact bound.symm

end Bindings

namespace Variables

theorem overlayAt (nearer further : Bindings) (name : String) :
    (overlay nearer further)[name]? = nearer[name]?.or further[name]? := by
  rw [overlay, Std.TreeMap.foldl_eq_foldl_toList, Bindings.insertNewAt, Bindings.findToList]

theorem overlaysAt (chain : List (Nat × Bindings)) (b : Bindings) (name : String) :
    (chain.foldl (fun acc node => overlay acc node.2) b)[name]? =
      b[name]?.or (chain.findSome? fun node => node.2[name]?) := by
  induction chain generalizing b with
  | nil => simp
  | cons node rest ih =>
    rw [List.foldl_cons, ih, overlayAt, Option.or_assoc, List.findSome?_cons]
    congr 1
    cases node.2[name]? <;> rfl

theorem closureAt (v : Variables) (frame root : Nat) (name : String) :
    (v.closure frame root)[name]? = (v.lookup frame root name).map some := by
  have seen : ((v.chain frame root).foldl (fun acc node => overlay acc node.2) {})[name]? =
      v.binding? frame root name := by
    rw [overlaysAt]
    simp [binding?]
  rw [closure, Std.TreeMap.getElem?_filter', seen, lookup]
  rcases v.binding? frame root name with - | - | value <;> rfl

theorem chainModify (v : Variables) (place : Nat) (f : Bindings → Bindings) (frame root : Nat) :
    chain (v.modify place f) frame root = (v.chain frame root).map fun node =>
      (node.1, if node.1 = place then f node.2 else node.2) := by
  rw [chain, Arena.ancestorsModify, List.takeWhile_map]
  rfl

theorem lookupApart {v : Variables} {place frame root : Nat} (f : Bindings → Bindings)
    (apart : place ∉ (v.chain frame root).map Prod.fst) (name : String) :
    lookup (v.modify place f) frame root name = v.lookup frame root name := by
  have same : chain (v.modify place f) frame root = v.chain frame root := by
    rw [chainModify]
    refine (List.map_congr_left fun node member => ?_).trans (List.map_id _)
    have different : node.1 ≠ place := by
      rintro rfl
      exact apart (List.mem_map_of_mem member)
    simp [different]
  rw [lookup, binding?, same]
  rfl

theorem lookupKept {f : Bindings → Bindings} {name : String}
    (kept : ∀ b, (f b)[name]? = b[name]?) (v : Variables) (place frame root : Nat) :
    lookup (v.modify place f) frame root name = v.lookup frame root name := by
  have same : ((fun node : Nat × Bindings => node.2[name]?) ∘ fun node : Nat × Bindings =>
      (node.1, if node.1 = place then f node.2 else node.2)) = fun node => node.2[name]? := by
    funext node
    simp only [Function.comp_apply]
    split_ifs
    · exact kept node.2
    · rfl
  rw [lookup, binding?, chainModify, List.findSome?_map]
  exact congrArg (fun find => ((v.chain frame root).findSome? find).join) same

theorem lookupAgree {v v' : Variables} (falling : v.Falling) (falling' : v'.Falling) {frame : Nat}
    (agree : ∀ i ≤ frame, v'.node? i = v.node? i) (root : Nat) (name : String) :
    v'.lookup frame root name = v.lookup frame root name := by
  rw [lookup, binding?, chain, Arena.ancestorsAgree falling falling' agree]
  rfl

theorem lookupTop {v : Variables} (falling : v.Falling) {frame root : Nat} {b : Bindings}
    (here : v.node? frame = some (root, b)) (name : String) :
    v.lookup frame root name = (b[name]?).join := by
  have below := falling here
  have own : ((frame, b).1 != root) = true := by
    simp
    omega
  have above : (v.ancestors root).takeWhile (fun node => node.1 != root) = [] := by
    cases found : v.node? root with
    | none => rw [Arena.ancestorsNone found]; rfl
    | some node =>
      obtain ⟨up, value⟩ := node
      rw [Arena.ancestorsOfNode falling found, List.takeWhile_cons, if_neg (by simp)]
  rw [lookup, binding?, chain, Arena.ancestorsOfNode falling here, List.takeWhile_cons, if_pos own,
    above]
  cases found : b[name]? <;> simp [found]

end Variables
end CMakeScript
