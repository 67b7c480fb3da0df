import CMakeScript.Target
import Mathlib.Data.List.Nodup
/-! The targets of a run beside the names that its directories list. Every name stands for a target
or for an alias of one, and a target that is built is listed once, by one directory. -/
namespace CMakeScript
namespace Targets

variable {r r' : Targets}

def Builds (r : Targets) (name : String) : Prop :=
  ∃ t, r.targets[name]? = some t ∧ t.imported = false

inductive Change (r : Targets) : Targets → Prop where
  | modified (name : String) {f : Target → Target} (kept : ∀ t, (f t).imported = t.imported) :
    Change r (r.modify name f)
  | imported {t : Target} (imported : t.imported = true) (fresh : r.contains t.name = false) :
    Change r { r with targets := r.targets.insert t.name t }
  | aliased {name target : String} (fresh : r.contains name = false)
    (real : r.targets.contains target = true) :
    Change r { r with aliases := r.aliases.insert name target }

theorem addCases {t : Target} (added : r.add t = .ok r') :
    r.get? t.name = none ∧ r' = { r with targets := r.targets.insert t.name t } := by
  unfold add at added
  split at added
  · cases added
  case h_2 fresh => exact ⟨fresh, (Except.ok.inj added).symm⟩

theorem addAliasCases {name target : String} (added : r.addAlias name target = .ok r') :
    r.contains name = false ∧ r.targets.contains target = true ∧
      r' = { r with aliases := r.aliases.insert name target } := by
  unfold addAlias at added
  split at added
  · cases added
  split at added
  · cases added
  split at added
  · cases added
  case isFalse fresh _ real =>
    exact ⟨eq_false_of_ne_true fresh, by simpa using real, (Except.ok.inj added).symm⟩

theorem findModified (r : Targets) (name : String) (f : Target → Target) (other : String) :
    (r.modify name f).targets[other]? =
      if r.resolve name = other then r.targets[other]?.map f else r.targets[other]? := by
  unfold modify get?
  split
  case h_1 t found =>
    simp only [Std.TreeMap.getElem?_insert, Std.LawfulEqCmp.compare_eq_iff_eq]
    split
    case isTrue same => rw [← same, found, Option.map_some]
    case isFalse => rfl
  case h_2 absent =>
    split
    case isTrue same => rw [← same, absent, Option.map_none]
    case isFalse => rfl

theorem aliasesModified (r : Targets) (name : String) (f : Target → Target) :
    (r.modify name f).aliases = r.aliases := by
  unfold modify
  split <;> rfl

theorem containsModified (r : Targets) (name : String) (f : Target → Target) (other : String) :
    (r.modify name f).targets.contains other = r.targets.contains other := by
  rw [Std.TreeMap.contains_eq_isSome_getElem?, Std.TreeMap.contains_eq_isSome_getElem?,
    findModified]
  split
  · exact Option.isSome_map
  · rfl

theorem buildsModified (r : Targets) (name : String) {f : Target → Target}
    (kept : ∀ t, (f t).imported = t.imported) (other : String) :
    (r.modify name f).Builds other ↔ r.Builds other := by
  unfold Builds
  rw [findModified]
  split
  · simp [kept]
  · rfl

theorem buildsInserted (r : Targets) (t : Target) (name : String) :
    ({ r with targets := r.targets.insert t.name t } : Targets).Builds name ↔
      if t.name = name then t.imported = false else r.Builds name := by
  simp only [Builds, Std.TreeMap.getElem?_insert, Std.LawfulEqCmp.compare_eq_iff_eq]
  split <;> simp

theorem Builds.contains {name : String} (builds : r.Builds name) :
    r.targets.contains name = true := by
  obtain ⟨t, found, -⟩ := builds
  rw [Std.TreeMap.contains_eq_isSome_getElem?, found, Option.isSome_some]

end Targets

structure Roster where
  targets : Targets
  listed : Nat → List String

namespace Roster

structure Consistent (r : Roster) : Prop where
  apart : ∀ {name}, r.targets.targets.contains name = true → r.targets.isAlias name = false
  real : ∀ {name target}, r.targets.aliased? name = some target →
    r.targets.targets.contains target = true
  once : ∀ {name}, r.targets.Builds name →
    ∃ place, (r.listed place).count name = 1 ∧ ∀ other ≠ place, name ∉ r.listed other
  built : ∀ {name place}, name ∈ r.listed place → r.targets.Builds name

namespace Consistent

variable {r : Roster}

theorem empty : Consistent ⟨{}, fun _ => []⟩ where
  apart := by simp
  real := by simp [Targets.aliased?]
  once := by simp [Targets.Builds]
  built := by simp

theorem apartInserted (consistent : r.Consistent) {t : Target}
    (unaliased : r.targets.isAlias t.name = false) {name : String}
    (there : (r.targets.targets.insert t.name t).contains name = true) :
    r.targets.isAlias name = false := by
  rw [Std.TreeMap.contains_insert, Bool.or_eq_true, beq_iff_eq,
    Std.LawfulEqCmp.compare_eq_iff_eq] at there
  obtain rfl | there := there
  · exact unaliased
  · exact consistent.apart there

theorem realInserted (consistent : r.Consistent) (t : Target) {name target : String}
    (there : r.targets.aliased? name = some target) :
    (r.targets.targets.insert t.name t).contains target = true := by
  rw [Std.TreeMap.contains_insert, consistent.real there, Bool.or_true]

theorem unlistedFree (consistent : r.Consistent) {name : String}
    (free : r.targets.targets.contains name = false) (place : Nat) : name ∉ r.listed place := by
  intro there
  rw [(consistent.built there).contains] at free
  cases free

theorem modified (consistent : r.Consistent) (name : String) {f : Target → Target}
    (kept : ∀ t, (f t).imported = t.imported) :
    Consistent { r with targets := r.targets.modify name f } := by
  constructor
  case apart =>
    intro other there
    rw [Targets.containsModified] at there
    rw [Targets.isAlias, Targets.aliasesModified]
    exact consistent.apart there
  case real =>
    intro other target there
    rw [Targets.aliased?, Targets.aliasesModified] at there
    rw [Targets.containsModified]
    exact consistent.real there
  case once =>
    intro other there
    exact consistent.once ((Targets.buildsModified _ _ kept _).mp there)
  case built =>
    intro other place there
    exact (Targets.buildsModified _ _ kept _).mpr (consistent.built there)

theorem imported (consistent : r.Consistent) {t : Target} (imported : t.imported = true)
    (fresh : r.targets.contains t.name = false) :
    Consistent { r with
      targets := { r.targets with targets := r.targets.targets.insert t.name t } } := by
  obtain ⟨free, unaliased⟩ := Bool.or_eq_false_iff.mp fresh
  constructor
  case apart => exact consistent.apartInserted unaliased
  case real => exact consistent.realInserted t
  case once =>
    intro name there
    rw [Targets.buildsInserted] at there
    split at there
    · rw [imported] at there
      cases there
    · exact consistent.once there
  case built =>
    intro name place there
    rw [Targets.buildsInserted]
    split
    case isTrue same =>
      subst same
      exact absurd there (consistent.unlistedFree free place)
    case isFalse => exact consistent.built there

theorem aliased (consistent : r.Consistent) {name target : String}
    (fresh : r.targets.contains name = false)
    (known : r.targets.targets.contains target = true) :
    Consistent { r with
      targets := { r.targets with aliases := r.targets.aliases.insert name target } } := by
  obtain ⟨free, -⟩ := Bool.or_eq_false_iff.mp fresh
  constructor
  case apart =>
    intro other there
    rw [Targets.isAlias, Std.TreeMap.contains_insert, Bool.or_eq_false_iff]
    refine ⟨?_, consistent.apart there⟩
    rw [beq_eq_false_iff_ne, ne_eq, Std.LawfulEqCmp.compare_eq_iff_eq]
    rintro rfl
    rw [free] at there
    cases there
  case real =>
    intro other found there
    simp only [Targets.aliased?, Std.TreeMap.getElem?_insert,
      Std.LawfulEqCmp.compare_eq_iff_eq] at there
    split at there
    · cases there
      exact known
    · exact consistent.real there
  case once => exact consistent.once
  case built => exact consistent.built

theorem targets (consistent : r.Consistent) {targets : Targets}
    (change : r.targets.Change targets) : Consistent { r with targets } := by
  cases change with
  | modified name kept => exact consistent.modified name kept
  | imported imported fresh => exact consistent.imported imported fresh
  | aliased fresh known => exact consistent.aliased fresh known

theorem listedApart (consistent : r.Consistent) {name : String} {place other : Nat}
    (listed : name ∈ r.listed place) (again : name ∈ r.listed other) : other = place := by
  obtain ⟨only, -, nowhere⟩ := consistent.once (consistent.built listed)
  have here (q : Nat) (there : name ∈ r.listed q) : q = only := by
    by_contra apart
    exact nowhere q apart there
  rw [here place listed, here other again]

theorem listedNodup (consistent : r.Consistent) (place : Nat) : (r.listed place).Nodup := by
  refine List.nodup_iff_count_eq_one.mpr fun name listed => ?_
  obtain ⟨only, counted, nowhere⟩ := consistent.once (consistent.built listed)
  obtain rfl : place = only := by
    by_contra apart
    exact nowhere place apart listed
  exact counted

theorem unlistedImported (consistent : r.Consistent) {name : String} {t : Target}
    (found : r.targets.targets[name]? = some t) (imported : t.imported = true) (place : Nat) :
    name ∉ r.listed place := by
  intro listed
  obtain ⟨t', found', builds⟩ := consistent.built listed
  cases found.symm.trans found'
  exact Bool.false_ne_true (builds.symm.trans imported)

theorem unlistedAlias (consistent : r.Consistent) {name : String}
    (aliased : r.targets.isAlias name = true) (place : Nat) : name ∉ r.listed place := by
  intro listed
  have unaliased := consistent.apart (consistent.built listed).contains
  exact Bool.false_ne_true (unaliased.symm.trans aliased)

theorem fresh (consistent : r.Consistent) {name : String} (unknown : r.targets.get? name = none) :
    r.targets.contains name = false := by
  unfold Targets.get? Targets.resolve at unknown
  rw [Std.TreeMap.getD_eq_getD_getElem?] at unknown
  cases found : r.targets.aliases[name]? with
  | none =>
    rw [found, Option.getD_none] at unknown
    rw [Targets.contains, Std.TreeMap.contains_eq_isSome_getElem?, unknown,
      Std.TreeMap.contains_eq_isSome_getElem?, found]
    rfl
  | some target =>
    have there := consistent.real found
    rw [found, Option.getD_some] at unknown
    rw [Std.TreeMap.contains_eq_isSome_getElem?, unknown] at there
    cases there

theorem declared (consistent : r.Consistent) {t : Target} (builds : t.imported = false)
    (unknown : r.targets.get? t.name = none) {listed : Nat → List String} (place : Nat)
    (here : listed place = r.listed place ++ [t.name])
    (elsewhere : ∀ other ≠ place, listed other = r.listed other) :
    Consistent ⟨{ r.targets with targets := r.targets.targets.insert t.name t }, listed⟩ := by
  obtain ⟨free, unaliased⟩ := Bool.or_eq_false_iff.mp (consistent.fresh unknown)
  have ⟨_, _, once, built⟩ := consistent
  have unlisted := consistent.unlistedFree free
  have listing {name : String} {q : Nat} (there : name ∈ listed q) :
      name ∈ r.listed q ∨ q = place ∧ name = t.name := by
    by_cases same : q = place
    · subst same
      rw [here, List.mem_append, List.mem_singleton] at there
      exact there.imp_right fun same => ⟨rfl, same⟩
    · exact .inl (elsewhere q same ▸ there)
  have counting {name : String} (other : name ≠ t.name) (q : Nat) :
      (listed q).count name = (r.listed q).count name := by
    have absent : [t.name].count name = 0 := List.count_eq_zero.mpr (by simpa using other)
    by_cases same : q = place
    · rw [same, here, List.count_append, absent, Nat.add_zero]
    · rw [elsewhere q same]
  have single : (listed place).count t.name = 1 := by
    rw [here, List.count_append, List.count_eq_zero.mpr (unlisted place),
      List.count_singleton_self]
  constructor
  case apart => exact consistent.apartInserted unaliased
  case real => exact consistent.realInserted t
  case once =>
    intro name there
    rw [Targets.buildsInserted] at there
    split at there
    case isTrue same =>
      subst same
      exact ⟨place, single, fun other different there =>
        unlisted other (elsewhere other different ▸ there)⟩
    case isFalse different =>
      obtain ⟨q, counted, only⟩ := once there
      have other : name ≠ t.name := fun same => different same.symm
      refine ⟨q, (counting other q).trans counted, fun q' apart there => ?_⟩
      obtain there | ⟨-, same⟩ := listing there
      · exact only q' apart there
      · exact other same
  case built =>
    intro name q there
    rw [Targets.buildsInserted]
    split
    · exact builds
    case isFalse different =>
      obtain there | ⟨-, same⟩ := listing there
      · exact built there
      · exact absurd same.symm different

end Consistent
end Roster
end CMakeScript
