import CMakeScript.Engine.Registry
/-! What names stand for. A definition takes its own name and puts what this stood for behind an
underscore. All other names stay, and the reserved ones, of which none begins with an underscore,
stand for built-in commands at all times. -/
namespace CMakeScript.Registry

variable {r r' : Registry} {d : Definition} {name lower : String} {c : Callable}

def after (r : Registry) (d : Definition) : Registry := (r.define? d).getD r

theorem refusedIff : r.define? d = none ↔ r.isReserved (Text.lower d.name) = true := by
  simp [define?]

theorem defineFree (defined : r.define? d = some r') : r.isReserved (Text.lower d.name) = false := by
  rw [← Bool.not_eq_true, ← refusedIff, defined]
  exact nofun

theorem defineMode (defined : r.define? d = some r') : r'.mode = r.mode := by
  simp only [define?, Option.ite_none_left_eq_some, Option.some.injEq] at defined
  obtain ⟨-, rfl⟩ := defined
  rfl

theorem findInserted (r : Registry) (added : Std.TreeMap String Callable) (name lower : String)
    (c : Callable) : findLower? { r with added := added.insert name c } lower =
      if lower = name then some c else findLower? { r with added } lower := by
  by_cases same : lower = name
  · simp [findLower?, same]
  · simp [findLower?, builtin?, Std.TreeMap.getElem?_insert, same, Ne.symm same]

theorem underscored (text : String) : "_" ++ text ≠ text := by
  intro same
  have longer := congrArg (·.toList.length) same
  simp at longer

theorem defineFinds (defined : r.define? d = some r') (lower : String) :
    r'.findLower? lower =
      if lower = Text.lower d.name then some (.defined d)
      else if lower = "_" ++ Text.lower d.name then (r.find? d.name).or (r.findLower? lower)
      else r.findLower? lower := by
  simp only [define?, Option.ite_none_left_eq_some, Option.some.injEq] at defined
  obtain ⟨-, rfl⟩ := defined
  rw [findInserted, find?]
  cases r.findLower? (Text.lower d.name) with
  | none => simp
  | some before => simp [findInserted]

theorem findStart {mode : Mode} {lower : String} {b : Builtin}
    (found : ({ mode } : Registry).findLower? lower = some (.builtin b)) :
    (lower, b) ∈ Builtin.table mode := by
  simp only [findLower?, Std.TreeMap.getElem?_emptyc, builtin?, Option.map_map] at found
  obtain ⟨⟨name, b'⟩, first, same⟩ := Option.map_eq_some_iff.mp found
  cases same
  have named := List.find?_some first
  simp only [beq_iff_eq] at named
  rw [← named]
  exact List.mem_of_find?_eq_some first

theorem reservedPlain (mode : Mode) (lower : String) : "_" ++ lower ∉ Builtin.reserved mode := by
  have plain : ∀ name ∈ Builtin.reserved mode, name.toList.head? ≠ some '_' := by
    cases mode <;> decide +kernel
  exact fun member => plain _ member (by simp)

theorem reservedBuiltin {mode : Mode} (member : lower ∈ Builtin.reserved mode) :
    ∃ b, (lower, b) ∈ Builtin.table mode ∧
      ({ mode } : Registry).findLower? lower = some (.builtin b) := by
  have listed : ∀ name ∈ Builtin.reserved mode,
      (({ mode } : Registry).builtin? name).isSome = true := by cases mode <;> decide
  obtain ⟨b, same⟩ := Option.isSome_iff_exists.mp (listed lower member)
  have found : ({ mode } : Registry).findLower? lower = some (.builtin b) := by
    simp [findLower?, same]
  exact ⟨b, findStart found, found⟩

structure Guarded (mode : Mode) (r : Registry) : Prop where
  moded : r.mode = mode
  builtin : ∀ lower ∈ Builtin.reserved mode,
    r.findLower? lower = ({ mode } : Registry).findLower? lower

namespace Guarded

variable {mode : Mode}

theorem reserved (guarded : r.Guarded mode) (lower : String) :
    r.isReserved lower = true ↔ lower ∈ Builtin.reserved mode := by
  simp [isReserved, guarded.moded]

theorem define (guarded : r.Guarded mode) (defined : r.define? d = some r') :
    r'.Guarded mode where
  moded := (defineMode defined).trans guarded.moded
  builtin lower member := by
    have own : lower ≠ Text.lower d.name := by
      rintro rfl
      cases (defineFree defined).symm.trans ((guarded.reserved _).mpr member)
    have behind : lower ≠ "_" ++ Text.lower d.name := by
      rintro rfl
      exact reservedPlain mode _ member
    rw [defineFinds defined, if_neg own, if_neg behind, guarded.builtin lower member]

theorem after (guarded : r.Guarded mode) (d : Definition) : (r.after d).Guarded mode := by
  unfold Registry.after
  cases defined : r.define? d with
  | none => exact guarded
  | some r' => exact guarded.define defined

theorem afterAll (guarded : r.Guarded mode) (ds : List Definition) :
    (ds.foldl Registry.after r).Guarded mode := by
  induction ds generalizing r with
  | nil => exact guarded
  | cons d ds ih => exact ih (guarded.after d)

end Guarded

theorem lowerUnderscored (text : String) : Text.lower ("_" ++ text) = "_" ++ Text.lower text := by
  simp [Text.lower]

/-- What a definition changes of what names stand for, in any case of their letters. -/
structure Shadows (r : Registry) (d : Definition) (r' : Registry) : Prop where
  own : ∀ name, Text.lower name = Text.lower d.name → r'.find? name = some (.defined d)
  behind : ∀ before ∈ r.find? d.name, ∀ name, Text.lower name = Text.lower ("_" ++ d.name) →
    r'.find? name = some before
  others : ∀ name, Text.lower name ≠ Text.lower d.name →
    (Text.lower name = Text.lower ("_" ++ d.name) → r.find? d.name = none) →
    r'.find? name = r.find? name

theorem defineShadows (defined : r.define? d = some r') : r.Shadows d r' where
  own name same := by rw [find?, same, defineFinds defined, if_pos rfl]
  behind before known name same := by
    rw [find?, same, lowerUnderscored, defineFinds defined, if_neg (underscored _), if_pos rfl,
      known, Option.some_or]
  others name new free := by
    rw [find?, defineFinds defined, if_neg new, ← lowerUnderscored]
    split
    case isTrue same => rw [free same, Option.none_or, find?]
    case isFalse => rfl

/-- After any definitions, a definition is refused just if its name is reserved, and then changes
nothing. Else it has its name, what the name stood for is behind an underscore, and all other names
stand for what they stood for. A reserved name stands for a built-in command at all times. -/
theorem definitionsShadow (mode : Mode) (ds : List Definition) :
    let r := ds.foldl after { mode }
    (∀ d, Text.lower d.name ∈ Builtin.reserved mode → r.define? d = none ∧ r.after d = r) ∧
    (∀ d, Text.lower d.name ∉ Builtin.reserved mode →
      ∃ r', r.define? d = some r' ∧ r.after d = r' ∧ r.Shadows d r') ∧
    ∀ name, Text.lower name ∈ Builtin.reserved mode →
      ∃ b, (Text.lower name, b) ∈ Builtin.table mode ∧ r.find? name = some (.builtin b) := by
  intro r
  have start : ({ mode } : Registry).Guarded mode := ⟨rfl, fun _ _ => rfl⟩
  have guarded : r.Guarded mode := start.afterAll ds
  refine ⟨fun d member => ?refused, fun d free => ?accepted, fun name member => ?kept⟩
  case refused =>
    have refused := refusedIff.mpr ((guarded.reserved _).mpr member)
    exact ⟨refused, by rw [after, refused]; rfl⟩
  case accepted =>
    cases defined : r.define? d with
    | none => exact absurd ((guarded.reserved _).mp (refusedIff.mp defined)) free
    | some r' => exact ⟨r', rfl, by rw [after, defined]; rfl, defineShadows defined⟩
  case kept =>
    obtain ⟨b, listed, found⟩ := reservedBuiltin member
    exact ⟨b, listed, (guarded.builtin _ member).trans found⟩

theorem definitionBehindLost :
    let named (name : String) : Definition := { (default : Definition) with name }
    let r := [named "Message", named "_MESSAGE"].foldl after { mode := .script }
    r.find? "_message" = some (.defined (named "_MESSAGE")) ∧
      (∃ r', r.define? (named "message") = some r' ∧
        r'.find? "MESSAGE" = some (.defined (named "message")) ∧
        r'.find? "_message" = some (.defined (named "Message")) ∧
        r'.find? "__message" = some (.builtin .message)) ∧
      r.define? (named "Project") = none ∧
      ∃ b, ("endif", b) ∈ Builtin.table .script ∧ r.find? "EndIf" = some (.builtin b) := by
  intro named r
  obtain ⟨refused, accepted, kept⟩ :=
    definitionsShadow .script [named "Message", named "_MESSAGE"]
  obtain ⟨r', defined, -, shadows⟩ := accepted (named "message") (by decide +kernel)
  refine ⟨by decide +kernel, ⟨r', defined, shadows.own _ (by decide +kernel),
    shadows.behind _ (by decide +kernel) _ rfl, ?_⟩,
    (refused (named "Project") (by decide +kernel)).1, kept "EndIf" (by decide +kernel)⟩
  rw [shadows.others _ (by decide +kernel) fun same => absurd same (by decide +kernel)]
  decide +kernel

end CMakeScript.Registry
