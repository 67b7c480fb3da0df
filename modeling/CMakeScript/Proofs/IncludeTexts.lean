import CMakeScript.Command.BuildSettings
import CMakeScript.Proofs.ListCodec
/-! Include directories as texts. A command adds all of its paths to a log as one entry, and to the
property of a target by joining texts, or by splitting and joining them again. As long as paths stand
for themselves in a list, both come to the same list of paths. -/
namespace CMakeScript

namespace ListValue

variable {items more entries : List String}

def Clear (text : String) : Prop := ∀ c ∈ text.toList, c ∉ [';', '[', ']', '\\']

instance (text : String) : Decidable (Clear text) :=
  List.decidableBAll (fun c => c ∉ [';', '[', ']', '\\']) text.toList

def Plain (item : String) : Prop := item ≠ "" ∧ Clear item

def glue (first second : String) : String :=
  if first = "" then second else if second = "" then first else first ++ ";" ++ second

theorem joinEmpty (texts : ∀ item ∈ items, item ≠ "") : join items = "" ↔ items = [] := by
  refine ⟨fun empty => ?_, fun none => none ▸ rfl⟩
  rcases items with _ | ⟨item, _ | ⟨next, rest⟩⟩
  · rfl
  · simp [join, Text.join, texts] at empty
  · simpa [join, Text.join] using congrArg String.toList empty

theorem joinAppend (texts : ∀ item ∈ items, item ≠ "") (texts' : ∀ item ∈ more, item ≠ "") :
    join (items ++ more) = glue (join items) (join more) := by
  unfold glue
  split
  case isTrue empty => rw [(joinEmpty texts).mp empty, List.nil_append]
  case isFalse some =>
    split
    case isTrue empty => rw [(joinEmpty texts').mp empty, List.append_nil]
    case isFalse some' =>
      have first : items ≠ [] := fun none => some (none ▸ rfl)
      have second : more ≠ [] := fun none => some' (none ▸ rfl)
      exact String.intercalate_append_of_ne_nil first second

theorem splitPlain (plain : ∀ item ∈ items, Plain item) : split (join items) = items := by
  cases items with
  | nil => rfl
  | cons item rest =>
    rw [splitNonempty, splitJoin (List.cons_ne_nil _ _) fun item member => (plain item member).2]
    refine List.filter_eq_self.mpr fun item member => ?_
    simp [(plain item member).1]

def entry (text : String) : List String := if text = "" then [] else [text]

theorem entryTexts (text : String) : ∀ t ∈ entry text, t ≠ "" := by
  unfold entry
  split
  case isTrue => exact nofun
  case isFalse some => exact List.forall_mem_singleton.mpr some

@[simp] theorem joinEntry (text : String) : join (entry text) = text := by
  unfold entry
  split
  case isTrue empty => exact empty.symm
  case isFalse => simp [join, Text.join]

structure Spells (entries items : List String) : Prop where
  texts : ∀ text ∈ entries, text ≠ ""
  same : join entries = join items
  plain : ∀ item ∈ items, Plain item

namespace Spells

theorem nothing : Spells [] [] := ⟨nofun, rfl, nofun⟩

theorem joined (plain : ∀ item ∈ items, Plain item) : Spells (entry (join items)) items :=
  ⟨entryTexts _, joinEntry _, plain⟩

theorem append {entries' items' : List String} (first : Spells entries items)
    (second : Spells entries' items') : Spells (entries ++ entries') (items ++ items') where
  texts := List.forall_mem_append.mpr ⟨first.texts, second.texts⟩
  same := by
    rw [joinAppend first.texts second.texts, first.same, second.same,
      joinAppend (fun item member => (first.plain item member).1)
        fun item member => (second.plain item member).1]
  plain := List.forall_mem_append.mpr ⟨first.plain, second.plain⟩

theorem prepend (spells : Spells entries items) (plain : ∀ item ∈ more, Plain item)
    (some : join more ≠ "") : Spells (entry (join (join more :: entries))) (more ++ items) := by
  have whole := List.forall_mem_append.mpr ⟨plain, spells.plain⟩
  have texts : ∀ item ∈ [join more], item ≠ "" := List.forall_mem_singleton.mpr some
  have same : join (join more :: entries) = join (more ++ items) := by
    rw [← List.singleton_append, joinAppend texts spells.texts, spells.same,
      joinAppend (fun item member => (plain item member).1)
        fun item member => (spells.plain item member).1]
    simp [join, Text.join]
  exact same ▸ joined whole

end Spells
end ListValue

namespace Command

open ListValue (Clear Plain Spells)

variable {items front back : List String} {m : Properties}

theorem appendGlues (m : Properties) (name value : String) :
    (Properties.append m name value false).getD name "" =
      ListValue.glue (m.getD name "") value := by
  unfold Properties.append ListValue.glue
  by_cases none : value = ""
  · by_cases empty : m.getD name "" = "" <;> simp [none, empty]
  · by_cases empty : m.getD name "" = "" <;> simp [none, empty]

theorem extendSpells (plain : ∀ item ∈ items, Plain item) (before : ∀ item ∈ front, Plain item)
    (behind : ∀ item ∈ back, Plain item)
    (spelled : m.getD "INCLUDE_DIRECTORIES" "" = ListValue.join items) :
    (extendIncludes (ListValue.join front) (ListValue.join back) m).getD "INCLUDE_DIRECTORIES" "" =
      ListValue.join (front ++ (items ++ back)) := by
  have texts {list : List String} (plain : ∀ item ∈ list, Plain item) : ∀ item ∈ list, item ≠ "" :=
    fun item member => (plain item member).1
  have longer : (Properties.append m "INCLUDE_DIRECTORIES" (ListValue.join back) false).getD
      "INCLUDE_DIRECTORIES" "" = ListValue.join (items ++ back) := by
    rw [appendGlues, spelled, ListValue.joinAppend (texts plain) (texts behind)]
  have whole := List.forall_mem_append.mpr ⟨plain, behind⟩
  unfold extendIncludes
  dsimp only
  rw [longer]
  split
  case isTrue empty =>
    have none := (ListValue.joinEmpty (texts before)).mp (String.isEmpty_iff.mp empty)
    rw [longer, none, List.nil_append]
  case isFalse =>
    rw [Std.TreeMap.getD_insert_self, ListValue.splitPlain before, ListValue.splitPlain whole]

/-- A word that is more than padding and has no character that is special in a list. -/
def Tidy (word : String) : Prop := Clear word ∧ ∃ c ∈ word.toList, isPadding c = false

instance (word : String) : Decidable (Tidy word) :=
  @instDecidableAnd _ _ _ (List.decidableBEx (fun c => isPadding c = false) word.toList)

theorem Tidy.some {word : String} (tidy : Tidy word) : word ≠ "" := by
  rintro rfl
  obtain ⟨c, member, -⟩ := tidy.2
  simp at member

theorem Tidy.whole {word : String} (tidy : Tidy word) : ListValue.split word = [word] := by
  have plain : ∀ item ∈ [word], Plain item :=
    List.forall_mem_singleton.mpr ⟨tidy.some, tidy.1⟩
  simpa [ListValue.join, Text.join] using ListValue.splitPlain plain

theorem paddingDropped {cs : List Char} (visible : ∃ c ∈ cs, isPadding c = false) :
    Text.dropWhileEnd isPadding (cs.dropWhile isPadding) ≠ [] := by
  obtain ⟨c, member, shown⟩ := visible
  have kept {cs : List Char} (member : c ∈ cs) : c ∈ cs.dropWhile isPadding := by
    induction cs with
    | nil => exact member
    | cons first rest ih =>
      rw [List.dropWhile_cons]
      split
      case isTrue padding =>
        obtain rfl | member := List.mem_cons.mp member
        · rw [shown] at padding
          cases padding
        · exact ih member
      case isFalse => exact member
  have left := kept (List.mem_reverse.mpr (kept member))
  exact List.ne_nil_of_mem (List.mem_reverse.mpr left)

theorem includePathPlain {source word : String} (tidy : Tidy word)
    (clear : Clear source) : Plain (includePath source word) := by
  unfold includePath
  generalize made : forwardSlashes (String.ofList (Text.dropWhileEnd isPadding
    (word.toList.dropWhile isPadding))) = path
  have some : path ≠ "" := by
    rw [← made, forwardSlashes]
    simpa using paddingDropped tidy.2
  have plain : Clear path := by
    intro c member
    rw [← made, forwardSlashes, String.toList_ofList, String.toList_ofList, List.mem_map] at member
    obtain ⟨read, member, rfl⟩ := member
    split
    case isTrue => decide
    case isFalse =>
      have trimmed := (List.dropWhile_suffix _).subset (List.mem_reverse.mp member)
      exact tidy.1 read ((List.dropWhile_suffix _).subset (List.mem_reverse.mp trimmed))
  dsimp only
  split
  case isTrue => exact ⟨some, plain⟩
  case isFalse =>
    refine ⟨by simp [some], fun c member => ?_⟩
    simp only [String.toList_append, List.mem_append] at member
    obtain (member | slash) | member := member
    · exact clear c member
    · obtain rfl : c = '/' := by simpa using slash
      decide
    · exact plain c member

def includePaths (source : String) (words : List String) : List String :=
  (words.filter (· ≠ "SYSTEM")).map (includePath source)

theorem includePathsPlain {source : String} {words : List String}
    (tidy : ∀ word ∈ words, Tidy word) (clear : Clear source) :
    ∀ path ∈ includePaths source words, Plain path := by
  intro path member
  obtain ⟨word, read, rfl⟩ := List.mem_map.mp member
  exact includePathPlain (tidy word (List.mem_filter.mp read).1) clear

theorem readTidy (source : String) {words : List String} (tidy : ∀ word ∈ words, Tidy word)
    (inSystem : Bool) : ∃ includes, Includes.read? source inSystem words = some includes ∧
      includes.paths = includePaths source words := by
  fun_induction Includes.read? source inSystem words with
  | case1 => exact ⟨{}, rfl, rfl⟩
  | case2 inSystem rest ih => exact ih (List.forall_mem_cons.mp tidy).2
  | case3 inSystem word rest _ empty =>
    exact absurd (String.isEmpty_iff.mp empty) (tidy word List.mem_cons_self).some
  | case4 inSystem word rest unmarked _ paths ih =>
    obtain ⟨first, others⟩ := List.forall_mem_cons.mp tidy
    obtain ⟨more, read, same⟩ := ih others
    rw [read]
    refine ⟨_, rfl, ?_⟩
    have one : paths = [includePath source word] := by rw [← List.map_singleton, ← first.whole]
    have named : includePaths source (word :: rest) =
        includePath source word :: includePaths source rest := by
      rw [includePaths, List.filter_cons_of_pos (by simpa using unmarked), List.map_cons]
      rfl
    rw [named, ← same, one, List.singleton_append]

theorem readOrderTidy {default : Bool} {words : List String} (tidy : ∀ word ∈ words, Tidy word) :
    ∀ word ∈ (readOrder default words).2, Tidy word := by
  unfold readOrder
  split
  · exact (List.forall_mem_cons.mp tidy).2
  · exact (List.forall_mem_cons.mp tidy).2
  · exact tidy

end Command
end CMakeScript
