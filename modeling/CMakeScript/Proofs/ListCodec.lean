import CMakeScript.ListValue
/-! Splitting a list and joining it again. What is lost is the backslash of each escaped semicolon;
elements without special characters come back as they were. -/
namespace CMakeScript.ListValue

def unescaped : List Char → List Char
  | '\\' :: c :: cs => if c = ';' then ';' :: unescaped cs else '\\' :: c :: unescaped cs
  | c :: cs => c :: unescaped cs
  | [] => []

theorem unescapedPlain {cs : List Char} (plain : '\\' ∉ cs) : unescaped cs = cs := by
  fun_induction unescaped cs <;> simp_all

theorem scanStep {c : Char} (keepEmpty : Bool) (element : List Char) (depth : Nat)
    (cs : List Char) (plain : c ≠ '\\') :
    scan keepEmpty element depth (c :: cs) =
      if c = '[' then scan keepEmpty (c :: element) (depth + 1) cs
      else if c = ']' then scan keepEmpty (c :: element) (depth - 1) cs
      else if c = ';' ∧ depth = 0 then finished keepEmpty element ++ scan keepEmpty [] 0 cs
      else scan keepEmpty (c :: element) depth cs :=
  scan.eq_4 _ _ _ _ _ (fun same => absurd same plain) (fun _ _ same => absurd same plain)

theorem scanWhole (keepEmpty : Bool) (element : List Char) {cs : List Char}
    (plain : cs.any isSpecial = false) :
    scan keepEmpty element 0 cs = finished keepEmpty (cs.reverse ++ element) := by
  induction cs generalizing element with
  | nil => rfl
  | cons c cs ih =>
    simp only [List.any_cons, Bool.or_eq_false_iff, isSpecial, beq_eq_false_iff_ne] at plain
    obtain ⟨⟨⟨⟨separates, opens⟩, closes⟩, escapes⟩, later⟩ := plain
    rw [scanStep _ _ _ _ escapes, if_neg opens, if_neg closes, if_neg (fun both => separates both.1),
      ih _ later, List.reverse_cons, List.append_assoc]
    rfl

theorem elementsScan (keepEmpty : Bool) (value : String) :
    elements keepEmpty value = (scan keepEmpty [] 0 value.toList).map String.ofList := by
  unfold elements
  split
  case isTrue empty =>
    rw [String.isEmpty_iff.mp empty]
    cases keepEmpty <;> rfl
  case isFalse some =>
    split
    case isTrue plain =>
      rw [scanWhole _ _ (by simpa using plain)]
      simp_all [finished]
    case isFalse => rfl

theorem finishedNonempty (element : List Char) :
    finished false element = (finished true element).filter (!·.isEmpty) := by
  cases element <;> simp [finished]

theorem scanNonempty (element : List Char) (depth : Nat) (cs : List Char) :
    scan false element depth cs = (scan true element depth cs).filter (!·.isEmpty) := by
  fun_induction scan true element depth cs <;>
    simp_all [scan, finishedNonempty, List.filter_append]

theorem ofListEmpty (cs : List Char) : (String.ofList cs).isEmpty = cs.isEmpty := by
  rw [Bool.eq_iff_iff]
  simp

theorem splitNonempty (value : String) : split value = (splitAll value).filter (!·.isEmpty) := by
  unfold split splitAll
  simp [elementsScan, scanNonempty, List.filter_map, Function.comp_def, ofListEmpty]

theorem scanSome (element : List Char) (depth : Nat) (cs : List Char) :
    scan true element depth cs ≠ [] := by
  fun_induction scan true element depth cs <;> simp_all [finished]

theorem scanJoined (element : List Char) (depth : Nat) (cs : List Char) :
    [';'].intercalate (scan true element depth cs) = element.reverse ++ unescaped cs := by
  fun_induction scan true element depth cs with
  | case1 => simp [finished, unescaped]
  | case2 => simp [finished, unescaped]
  | case3 element depth cs ih => simp [unescaped, ih]
  | case4 element depth c cs other ih => simp [unescaped, other, ih]
  | case5 => simp_all [unescaped]
  | case6 => simp_all [unescaped]
  | case7 element depth c cs =>
    simp_all [finished, List.intercalate_cons_of_ne_nil (scanSome [] 0 cs), unescaped]
  | case8 => simp_all [unescaped]

theorem joinSplit (value : String) :
    join (splitAll value) = String.ofList (unescaped value.toList) := by
  refine String.toList_inj.mp ?_
  simp [splitAll, elementsScan, join, Text.join, Function.comp_def, scanJoined]

theorem scanPlain {cs : List Char} (plain : ∀ c ∈ cs, c ∉ ['[', ']', '\\'])
    (element : List Char) :
    scan true element 0 cs = List.splitOnPPrepend (· == ';') cs element := by
  induction cs generalizing element with
  | nil => simp [scan, finished]
  | cons c cs ih =>
    obtain ⟨here, later⟩ := List.forall_mem_cons.mp plain
    simp only [List.mem_cons, List.not_mem_nil, or_false, not_or] at here
    obtain ⟨opens, closes, escapes⟩ := here
    rw [scanStep _ _ _ _ escapes, if_neg opens, if_neg closes, List.splitOnPPrepend_cons_eq_if]
    simp [finished, ih later]

theorem joinText (items : List String) :
    (join items).toList = [';'].intercalate (items.map String.toList) := by
  simp [join, Text.join]

theorem joinMember {items : List String} {c : Char} (member : c ∈ (join items).toList) :
    c = ';' ∨ ∃ item ∈ items, c ∈ item.toList := by
  rw [joinText] at member
  induction items with
  | nil => simp at member
  | cons item items ih =>
    rcases items with _ | ⟨next, items⟩
    · exact .inr ⟨item, List.mem_singleton_self _, by simpa using member⟩
    · simp only [List.map_cons, List.intercalate_cons_cons, List.mem_append,
        List.mem_singleton] at member ih
      rcases member with (first | separator) | later
      · exact .inr ⟨item, List.mem_cons_self, first⟩
      · exact .inl separator
      · exact (ih later).imp_right fun ⟨other, inside, here⟩ =>
          ⟨other, List.mem_cons_of_mem _ inside, here⟩

theorem splitJoin {items : List String} (some : items ≠ [])
    (plain : ∀ item ∈ items, ∀ c ∈ item.toList, c ∉ [';', '[', ']', '\\']) :
    splitAll (join items) = items := by
  have apart : ∀ cs ∈ items.map String.toList, ';' ∉ cs := by
    intro cs member separates
    obtain ⟨item, inside, rfl⟩ := List.mem_map.mp member
    exact plain item inside ';' separates (by decide)
  have kept : ∀ c ∈ (join items).toList, c ∉ ['[', ']', '\\'] := by
    intro c member special
    rcases joinMember member with rfl | ⟨item, inside, here⟩
    · simp at special
    · exact plain item inside c here (List.mem_cons_of_mem _ special)
  rw [splitAll, elementsScan, scanPlain kept, List.splitOnPPrepend_nil_right,
    ← List.splitOn_eq_splitOnP, joinText,
    List.splitOn_intercalate ';' apart (by simpa using some)]
  simp

/-- Splitting and joining undo one another but for empty elements, which one way of splitting
leaves out, and escaped semicolons. -/
theorem listsReadBack :
    (∀ value, split value = (splitAll value).filter (!·.isEmpty) ∧
      join (splitAll value) = String.ofList (unescaped value.toList) ∧
      ('\\' ∉ value.toList → join (splitAll value) = value)) ∧
    ∀ items ≠ [], (∀ item ∈ items, ∀ c ∈ item.toList, c ∉ [';', '[', ']', '\\']) →
      splitAll (join items) = items := by
  refine ⟨fun value => ⟨splitNonempty value, joinSplit value, fun plain => ?_⟩,
    fun items some plain => splitJoin some plain⟩
  rw [joinSplit, unescapedPlain plain, String.ofList_toList]

theorem emptyElementReadsBack :
    (∀ item ∈ ["a b", "", "é"], ∀ c ∈ item.toList, c ∉ [';', '[', ']', '\\']) ∧
      splitAll (join ["a b", "", "é"]) = ["a b", "", "é"] ∧
      '\\' ∉ "]a;;[b;c".toList ∧ join (splitAll "]a;;[b;c") = "]a;;[b;c" ∧
      split "]a;;[b;c" = ["]a", "[b;c"] := by
  have items : ∀ item ∈ ["a b", "", "é"], ∀ c ∈ item.toList, c ∉ [';', '[', ']', '\\'] := by
    simp
  have plain : '\\' ∉ "]a;;[b;c".toList := by decide +kernel
  have reads := listsReadBack.1 "]a;;[b;c"
  exact ⟨items, listsReadBack.2 _ (by decide) items, plain, reads.2.2 plain,
    reads.1.trans (by decide +kernel)⟩

end CMakeScript.ListValue
