import CMakeScript.Command.Variables
import CMakeScript.Proofs.CurrentScope
import CMakeScript.Proofs.ExpansionReading
/-! Values of the cache. Setting a cache variable without force, and declaring an option, write an
entry only where there is none, or one without a type, which then keeps its value. So a value that
was given stays, and a reference to the cache expands to it. -/
namespace CMakeScript

theorem CacheType.ofInternal {keyword : String} (read : ofKeyword? keyword = some .internal) :
    keyword = "INTERNAL" := by
  unfold ofKeyword? at read
  split at read <;> first | rfl | cases read

namespace Cache

variable {cache cache' cache'' : Cache} {name value : String}

structure Keeps (cache cache' : Cache) : Prop where
  values : ∀ name value, cache.value? name = some value → cache'.value? name = some value

theorem Keeps.refl (cache : Cache) : cache.Keeps cache := ⟨fun _ _ held => held⟩

theorem Keeps.trans (first : cache.Keeps cache') (second : cache'.Keeps cache'') :
    cache.Keeps cache'' :=
  ⟨fun name value held => second.values name value (first.values name value held)⟩

theorem insertKeeps {entry : CacheEntry}
    (same : ∀ old, cache[name]? = some old → old.value = entry.value) :
    cache.Keeps (cache.insert name entry) := by
  refine ⟨fun other value held => ?_⟩
  obtain ⟨old, found, rfl⟩ := Option.map_eq_some_iff.mp held
  rw [value?, Std.TreeMap.getElem?_insert]
  split
  case isTrue equal =>
    obtain rfl := Std.LawfulEqCmp.eq_of_compare equal
    rw [Option.map_some, same old found]
  case isFalse => rw [found, Option.map_some]

theorem setPropertyKeeps {property : String} (other : property ≠ "VALUE") (cache : Cache)
    (name value : String) (append : Bool) :
    cache.Keeps ((cache.setProperty? name property value append).getD cache) := by
  rw [setProperty?]
  cases found : cache[name]? with
  | none => exact .refl cache
  | some entry =>
    refine insertKeeps fun old there => ?_
    cases found.symm.trans there
    unfold editEntry
    rw [if_neg other]
    split
    · split <;> rfl
    · split <;> rfl

end Cache
namespace Engine

variable {e e' : Engine} {name : String}

theorem issueCache (e : Engine) (kind : MessageKind) (text : String) :
    (e.issue kind text).cache = e.cache := by
  obtain ⟨nested, written, errorOccurred, issued, -⟩ := issueAtCases e kind text e.backtrace
  rw [issue, issued]

theorem uncoverCache (e : Engine) (name : String) : (e.uncover name).cache = e.cache := by
  unfold uncover
  split
  · rfl
  · rfl
  · simp only [undefine]
    split
    · exact issueCache ..
    · rfl

theorem raiseCache (e : Engine) (name : String) (value : Option String) :
    (e.raise name value).cache = e.cache := by
  unfold raise
  split
  · rfl
  · split
    · rfl
    · exact issueCache ..

theorem cacheDefineKeeps (untyped : ∀ entry, e.cache[name]? = some entry → entry.type = .uninitialized)
    (value help : String) (type : CacheType) :
    e.cache.Keeps (e.cacheDefine name value help type false).cache := by
  rw [cacheDefine, uncoverCache, Cache.add]
  refine Cache.insertKeeps fun old found => ?_
  simp [found, untyped old found]

end Engine

namespace Step

variable {α β : Type} {s : Step α} {e : Engine}

structure Keeps (s : Step α) (e : Engine) : Prop where
  cache : e.cache.Keeps (s e).2.cache

theorem Keeps.same (same : (s e).2.cache = e.cache) : s.Keeps e := ⟨same ▸ .refl e.cache⟩

theorem Keeps.bind {k : α → Step β} (first : s.Keeps e) (second : (k (s e).1).Keeps (s e).2) :
    (s >>= k).Keeps e :=
  ⟨first.cache.trans second.cache⟩

theorem Keeps.bindMade {P : α → Prop} {k : α → Step β} (kept : (s e).2.cache = e.cache)
    (made : P (s e).1) (rest : ∀ a e, P a → (k a).Keeps e) : (s >>= k).Keeps e :=
  .bind (.same kept) (rest _ _ made)

end Step
namespace Command

variable {words values : List String} {type help : String}

def Replaces (words : List String) : Prop :=
  ∃ name values type help, words = name :: (values ++ ["CACHE", type, help, "FORCE"]) ∨
    words = name :: (values ++ ["CACHE", "INTERNAL", help])

theorem readReplaces (cached : (SetRequest.read values).cache = some (type, help))
    (allowed : (SetRequest.read values).force = true ∨ type = "INTERNAL") (name : String) :
    Replaces (name :: values) := by
  unfold SetRequest.read at cached allowed
  split at cached
  case isTrue => cases cached
  case isFalse other =>
    rw [if_neg other] at allowed
    dsimp only at cached allowed
    generalize forced : (decide (3 < values.length) && values.getLast? == some "FORCE") = force
      at cached allowed
    generalize same : (if force then values.dropLast else values) = plain at cached allowed
    split at cached
    case h_2 => cases cached
    case h_1 last =>
      cases cached
      have parts := List.take_append_drop (plain.length - 3) plain
      rw [last] at parts
      cases force with
      | true =>
        simp only [Bool.and_eq_true, beq_iff_eq, List.getLast?_eq_some_iff] at forced
        obtain ⟨-, before, rfl⟩ := forced
        rw [if_pos rfl, List.dropLast_concat] at same
        rw [same, ← parts]
        exact ⟨name, _, type, help, .inl (by rw [List.append_assoc]; rfl)⟩
      | false =>
        rw [last] at allowed
        obtain rfl := allowed.resolve_left Bool.false_ne_true
        obtain rfl : values = plain := same
        exact ⟨name, _, "", help, .inr (congrArg _ parts.symm)⟩

theorem setCacheKeeps (shared : type ≠ "INTERNAL") (name value help : String) (e : Engine) :
    (setCache name value type help false).Keeps e := by
  unfold setCache
  refine Step.Keeps.bindMade (P := (· ≠ .internal)) ?_ ?_ fun type e shared => ?_
  · cases CacheType.ofKeyword? type with
    | some type => rfl
    | none => exact Engine.issueCache ..
  · cases read : CacheType.ofKeyword? type with
    | some type =>
      rintro rfl
      exact shared (CacheType.ofInternal read)
    | none => exact nofun
  · refine Step.Keeps.bind (s := get) (.same rfl) ?_
    dsimp only
    split
    case isTrue => exact .same rfl
    case isFalse writes =>
      refine ⟨Engine.cacheDefineKeeps (fun entry found => ?_) ..⟩
      change ¬((e.cache[name]?.any _ && _) && _) = true at writes
      rw [show e.cache[name]? = some entry from found] at writes
      simpa [shared] using writes

theorem setEnvironmentKeeps (name value : String) (rest : List String) (e : Engine) :
    (setEnvironment name value rest).Keeps e := by
  unfold setEnvironment
  split
  · exact .same rfl
  · cases rest with
    | nil => exact .same rfl
    | cons extra rest => exact .same (Engine.issueCache ..)

theorem setVariableKeeps (kept : ¬Replaces words) (e : Engine) : (setVariable words).Keeps e := by
  unfold setVariable
  split
  · exact .same rfl
  · exact .same rfl
  case h_3 name value rest =>
    split
    · exact .same (Engine.raiseCache ..)
    split
    · exact .same rfl
    · exact setEnvironmentKeeps ..
    · dsimp only
      split
      · exact .same (Engine.raiseCache ..)
      split
      · exact .same rfl
      split
      case h_2 => exact .same rfl
      case h_1 type help cached =>
        have refused := mt (fun allowed => readReplaces cached allowed name) kept
        rw [not_or, Bool.not_eq_true] at refused
        rw [refused.1]
        exact setCacheKeeps refused.2 ..

theorem declareOptionKeeps (name help : String) (initial : Option String) (e : Engine) :
    (declareOption name help initial).Keeps e := by
  refine Step.Keeps.bind (s := get) (.same rfl) ?_
  dsimp only
  split
  · exact .same rfl
  split
  case h_1 entry found =>
    split
    case isTrue untyped =>
      refine ⟨Engine.cacheDefineKeeps (fun old there => ?_) ..⟩
      cases found.symm.trans there
      exact untyped
    case isFalse => exact ⟨Cache.setPropertyKeeps (by decide) ..⟩
  case h_2 missing =>
    refine ⟨Engine.cacheDefineKeeps (fun old there => ?_) ..⟩
    cases missing.symm.trans there

theorem optionKeeps (words : List String) (e : Engine) : (option words).Keeps e := by
  unfold option
  split
  · exact declareOptionKeeps ..
  · exact declareOptionKeeps ..
  · exact .same rfl

theorem replacesIff {name : String} :
    Replaces (name :: (values ++ ["CACHE", type, help])) ↔
      type = "INTERNAL" ∨ help = "FORCE" ∧ values.getLast? = some "CACHE" := by
  constructor
  · rintro ⟨_, before, type', help', same | same⟩
    · have same : values ++ ["CACHE", type, help] =
          (before ++ ["CACHE"]) ++ [type', help', "FORCE"] := by
        simpa using (List.cons.inj same).2
      obtain ⟨rfl, last⟩ := List.append_inj' same rfl
      cases last
      exact .inr ⟨rfl, List.getLast?_concat⟩
    · obtain ⟨-, last⟩ := List.append_inj' (List.cons.inj same).2 rfl
      cases last
      exact .inl rfl
  · rintro (rfl | ⟨rfl, last⟩)
    · exact ⟨name, values, "", help, .inr rfl⟩
    · obtain ⟨before, rfl⟩ := List.getLast?_eq_some_iff.mp last
      exact ⟨name, before, "CACHE", type, .inl (by simp)⟩

end Command

namespace Expansion

namespace Template

def naming : List Char → Template
  | [] => done
  | c :: cs =>
    if isNameChar c ∨ Text.isAscii c = false then literal c (naming cs) else escape c (naming cs)

theorem namingReadable (cs after : List Char) : (naming cs).Readable true after := by
  induction cs with
  | nil => trivial
  | cons c cs ih =>
    rw [naming]
    split
    case isTrue plain => exact ⟨plain, ih⟩
    case isFalse special =>
      refine ⟨.inr ?_, ih⟩
      simp only [isNameChar, Bool.or_eq_true, not_or, Bool.not_eq_true] at special
      simp [special]

theorem namingValue (source : VariableSource) (cs : List Char) :
    (naming cs).value source true = cs := by
  induction cs with
  | nil => rfl
  | cons c cs ih =>
    rw [naming]
    split
    case isTrue => rw [value, ih]
    case isFalse special =>
      have other : controlEscape? c = none := by
        unfold controlEscape?
        split <;> first | rfl | exact absurd (.inl (by decide)) special
      simp [value, ih, escaped, other]

theorem namingPlain {cs : List Char} (plain : ∀ c ∈ cs, isNameChar c = true) :
    (naming cs).spell = cs := by
  induction cs with
  | nil => rfl
  | cons c cs ih =>
    obtain ⟨here, plain⟩ := List.forall_mem_cons.mp plain
    rw [naming, if_pos (.inl here), spell, ih plain]

end Template

def cacheReference (name : String) : String :=
  String.ofList (Template.reference .cache (.naming name.toList) .done).spell

theorem plainReference {name : String} (plain : ∀ c ∈ name.toList, isNameChar c = true) :
    cacheReference name = "$CACHE\x7b" ++ name ++ "\x7d" := by
  apply String.toList_inj.mp
  simp [cacheReference, Template.spell, Template.namingPlain plain, ReferenceKind.opening]

theorem cacheReferenceExpands (source : VariableSource) (name : String) :
    expand source {} (cacheReference name) = .ok ((source.cache name).getD "") := by
  have readable : (Template.reference .cache (.naming name.toList) .done).Readable false [] :=
    ⟨Template.namingReadable .., trivial⟩
  rw [cacheReference, templateExpands source _ readable String.toList_ofList.symm]
  simp [Template.value, Template.namingValue, VariableSource.lookup]

end Expansion

namespace Engine

variable {e e' : Engine}

/-- What happens in a run in which no value of the cache is replaced. -/
inductive Unforced : Engine → Engine → Prop where
  | set {words : List String} (kept : ¬Command.Replaces words) (e : Engine) :
    Unforced e (Command.setVariable words e).2
  | option (words : List String) (e : Engine) : Unforced e (Command.option words e).2
  | beside {e e' : Engine} (same : e'.cache = e.cache) : Unforced e e'

theorem Unforced.keeps (step : Unforced e e') : e.cache.Keeps e'.cache := by
  cases step with
  | set kept => exact (Command.setVariableKeeps kept e).cache
  | option words => exact (Command.optionKeeps words e).cache
  | beside same => exact same ▸ .refl e.cache

theorem unforcedKeeps (run : Relation.ReflTransGen Unforced e e') : e.cache.Keeps e'.cache := by
  induction run with
  | refl => exact .refl e.cache
  | tail _ step ih => exact ih.trans step.keeps

theorem cacheReferenceShows {name value : String} (held : e.cache.value? name = some value)
    (line : Nat) : e.expandText (Expansion.cacheReference name) line {} = (some value, e) := by
  simp [expandText, Expansion.cacheReferenceExpands, source, held]

/-- A value of the cache stays in every run that forces none into it. -/
theorem givenValueStays {name value : String} (run : Relation.ReflTransGen Unforced e e')
    (given : e.cache.value? name = some value) :
    e'.cache.value? name = some value ∧
      ∀ line, e'.expandText (Expansion.cacheReference name) line {} = (some value, e') :=
  have held := (unforcedKeeps run).values name value given
  ⟨held, cacheReferenceShows held⟩

theorem untypedValueStays :
    let start := Engine.start { cacheEntries := ["X=1"] } {} []
    let set := (Command.setVariable ["X", "2", "CACHE", "STRING", "help"] start).2
    let e' := (Command.option ["X", "help", "ON"] (set.define "X" "3")).2
    start.cache.value? "X" = some "1" ∧ e'.cache.value? "X" = some "1" ∧
      e'.expandText "$CACHE\x7bX\x7d" 1 {} = (some "1", e') := by
  intro start set e'
  have given : start.cache.value? "X" = some "1" := rfl
  have kept : ¬Command.Replaces ("X" :: (["2"] ++ ["CACHE", "STRING", "help"])) := by
    rw [Command.replacesIff]
    decide
  have run : Relation.ReflTransGen Unforced start e' :=
    .tail (.tail (.tail .refl (.set kept start))
      (show Unforced set (set.define "X" "3") from .beside rfl)) (.option ["X", "help", "ON"] _)
  obtain ⟨held, expands⟩ := givenValueStays run given
  have spelled : Expansion.cacheReference "X" = "$CACHE\x7bX\x7d" :=
    Expansion.plainReference (by simp; decide)
  exact ⟨given, held, spelled ▸ expands 1⟩

end Engine
end CMakeScript
