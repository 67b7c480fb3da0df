import CMakeScript.Command.List
import CMakeScript.Proofs.CurrentScope
import CMakeScript.Proofs.ListCodec
import CMakeScript.Proofs.NaturalOrder
/-! Sorting of lists. The elements are put into the chosen order, and those that are equal in it
keep theirs. What is written has no escapes, so an element with a semicolon or with an open bracket
is read back otherwise. -/
namespace CMakeScript

namespace ListValue

variable {element : List Char} {depth : Nat} {cs : List Char}

def StandsAlone (element : String) : Prop := splitAll (element ++ ";") = [element, ""]

instance (element : String) : Decidable (StandsAlone element) := by
  unfold StandsAlone
  infer_instance

theorem scanSeparator (element : List Char) (depth : Nat) (rest : List Char) :
    scan true element depth (';' :: rest) =
      if depth = 0 then element.reverse :: scan true [] 0 rest
      else scan true (';' :: element) depth rest := by
  rw [scanStep _ _ _ _ (by decide)]
  simp [finished]

theorem standingPlain
    (alone : scan true element depth (cs ++ [';']) = [element.reverse ++ cs, []]) :
    unescaped (cs ++ [';']) = cs ++ [';'] := by
  have joined := scanJoined element depth (cs ++ [';'])
  rw [alone] at joined
  simpa using joined.symm

theorem scanStanding (alone : scan true element depth (cs ++ [';']) = [element.reverse ++ cs, []]) :
    scan true element depth cs = [element.reverse ++ cs] ∧
      ∀ rest, scan true element depth (cs ++ ';' :: rest) =
        (element.reverse ++ cs) :: scan true [] 0 rest := by
  fun_induction scan true element depth cs with
  | case1 element depth =>
    simp only [List.nil_append, scanSeparator] at alone ⊢
    split at alone
    case isTrue => simp_all [finished]
    case isFalse => simp [scan, finished] at alone
  | case2 element depth => exact absurd (standingPlain alone) (by simp [unescaped])
  | case3 element depth cs ih => exact absurd (standingPlain alone) (by simp [unescaped])
  | case4 element depth c cs other ih =>
    simpa [scan, other] using ih (by simpa [scan, other] using alone)
  | case5 element depth cs _ _ ih => simpa [scanStep] using ih (by simpa [scanStep] using alone)
  | case6 element depth cs _ _ opens ih =>
    simpa [scanStep] using ih (by simpa [scanStep] using alone)
  | case7 element depth c cs _ _ opens closes separates ih =>
    obtain ⟨rfl, rfl⟩ := separates
    simp [scanSeparator] at alone
  | case8 element depth c cs single pair opens closes separates ih =>
    have plain : c ≠ '\\' := by
      rintro rfl
      cases cs with
      | nil => exact single rfl rfl
      | cons d ds => exact pair d ds rfl rfl
    have step (rest : List Char) := scanStep true element depth rest plain
    simp only [if_neg opens, if_neg closes, if_neg separates] at step
    simpa [step] using ih (by simpa [step] using alone)

theorem standsAloneScan {element : String} (alone : StandsAlone element) :
    scan true [] 0 element.toList = [element.toList] ∧
      ∀ rest, scan true [] 0 (element.toList ++ ';' :: rest) =
        element.toList :: scan true [] 0 rest := by
  refine scanStanding (?_ : scan true [] 0 (element.toList ++ [';']) = [element.toList, []])
  have read : (scan true [] 0 (element ++ ";").toList).map String.ofList = [element, ""] := by
    rw [← elementsScan]
    exact alone
  have listed := congrArg (List.map String.toList) read
  simpa [Function.comp_def] using listed

theorem splitJoinAlone {items : List String} (some : items ≠ [])
    (alone : ∀ item ∈ items, StandsAlone item) : splitAll (join items) = items := by
  have scanned : scan true [] 0 (join items).toList = items.map String.toList := by
    induction items with
    | nil => exact absurd rfl some
    | cons item items ih =>
      obtain ⟨here, later⟩ := List.forall_mem_cons.mp alone
      rcases items with _ | ⟨next, items⟩
      · simpa [joinText] using (standsAloneScan here).1
      · rw [joinText] at ih ⊢
        simp only [List.map_cons, List.intercalate_cons_cons, List.append_assoc,
          List.singleton_append]
        rw [(standsAloneScan here).2]
        exact congrArg _ (ih (List.cons_ne_nil _ _) later)
  rw [splitAll, elementsScan, scanned]
  simp

theorem unescapedNothing {cs : List Char} (nothing : unescaped cs = []) : cs = [] := by
  fun_cases unescaped cs <;> simp_all [unescaped]

theorem joinNothing {items : List String} (nothing : join items = "") :
    items = [] ∨ items = [""] := by
  rcases items with _ | ⟨first, _ | ⟨second, items⟩⟩
  · exact .inl rfl
  · exact .inr (by simpa [join, Text.join] using nothing)
  · have read := congrArg String.toList nothing
    simp [joinText] at read

end ListValue
namespace Command.ListOperation

def elementsOf (value : String) : List String :=
  if value.isEmpty then [] else ListValue.splitAll value

theorem elementsSome (value : String) : elementsOf value ≠ [""] := by
  unfold elementsOf
  split
  case isTrue => exact List.cons_ne_nil _ _ |>.symm
  case isFalse some =>
    intro blank
    have joined := ListValue.joinSplit value
    rw [blank] at joined
    have nothing : ListValue.unescaped value.toList = [] := by
      simpa [ListValue.join, Text.join] using (congrArg String.toList joined).symm
    have isEmpty := ListValue.unescapedNothing nothing
    exact some (by simpa using isEmpty)

theorem elementsJoin {value : String} {items : List String} (same : items.Perm (elementsOf value))
    (alone : ∀ item ∈ elementsOf value, ListValue.StandsAlone item) :
    elementsOf (ListValue.join items) = items := by
  by_cases nothing : ListValue.join items = ""
  · obtain rfl | rfl := ListValue.joinNothing nothing
    · rfl
    · exact absurd (List.singleton_perm.mp same).symm (elementsSome value)
  · rw [elementsOf, if_neg (by simpa using nothing)]
    refine ListValue.splitJoinAlone ?_ fun item member => alone item (same.mem_iff.mp member)
    rintro rfl
    exact nothing rfl

def SortKey.word : SortKey → String
  | .text => "STRING"
  | .fileName => "FILE_BASENAME"
  | .natural => "NATURAL"

namespace SortOptions

def words (o : SortOptions) : List String :=
  (o.key.elim [] fun key => ["COMPARE", key.word]) ++
    (o.foldCase.elim [] fun fold => ["CASE", if fold then "INSENSITIVE" else "SENSITIVE"]) ++
    o.descending.elim [] fun down => ["ORDER", if down then "DESCENDING" else "ASCENDING"]

theorem readWords (o : SortOptions) : read {} o.words = .ok o := by
  obtain ⟨_ | _ | _ | _, _ | _ | _, _ | _ | _⟩ := o <;> rfl

variable {o : SortOptions}

def ascending (o : SortOptions) : SortOptions := { o with descending := some false }

/-- The second list holds the elements of the first in order, and of those that are equal in it the
earlier one still comes first. -/
structure Arranges (o : SortOptions) (items sorted : List String) : Prop where
  elements : sorted.Perm items
  ordered : sorted.Pairwise fun a b => (o.compare a b).isLE
  stable : ∀ item, sorted.filter (o.compare item · == .eq) = items.filter (o.compare item · == .eq)

def order (o : SortOptions) : String → String → Ordering :=
  if o.key = some .natural then NaturalOrder.compare else Ord.compare

theorem compareKeys (o : SortOptions) (a b : String) :
    o.compare a b = o.order (o.keyOf a) (o.keyOf b) := by
  unfold compare order
  split <;> rfl

instance (o : SortOptions) : Std.TransCmp o.order := by
  unfold order
  split <;> infer_instance

instance (o : SortOptions) : Std.TransCmp o.compare where
  eq_swap {a b} := by
    rw [compareKeys, compareKeys]
    exact Std.OrientedCmp.eq_swap
  isLE_trans {a b c} first second := by
    rw [compareKeys] at first second ⊢
    exact Std.TransCmp.isLE_trans first second

theorem ascendingArranges (o : SortOptions) (items : List String) :
    o.Arranges items (o.ascending.sort items) := by
  have upTo (a b : String) : (o.compare a b != .gt) = (o.compare a b).isLE := by
    cases o.compare a b <;> rfl
  have sorts : o.ascending.sort items = items.mergeSort fun a b => (o.compare a b).isLE := by
    simp only [← upTo]
    rfl
  have trans (a b c : String) (first : (o.compare a b).isLE = true)
      (second : (o.compare b c).isLE = true) : (o.compare a c).isLE = true :=
    Std.TransCmp.isLE_trans first second
  have total (a b : String) : ((o.compare a b).isLE || (o.compare b a).isLE) = true := by
    have swapped : o.compare b a = (o.compare a b).swap := Std.OrientedCmp.eq_swap
    rw [swapped]
    cases o.compare a b <;> rfl
  have elements := List.mergeSort_perm items fun a b => (o.compare a b).isLE
  rw [sorts]
  refine ⟨elements, List.pairwise_mergeSort trans total items, fun item => ?_⟩
  have tied : (items.filter (o.compare item · == .eq)).Pairwise
      fun a b => (o.compare a b).isLE = true := by
    refine List.pairwise_of_forall_mem_list fun a left b right => ?_
    have isLeft := beq_iff_eq.mp (List.mem_filter.mp left).2
    have isRight := beq_iff_eq.mp (List.mem_filter.mp right).2
    have same := Std.TransCmp.eq_trans (Std.OrientedCmp.eq_symm isLeft) isRight
    exact Ordering.isLE_of_eq_eq same
  have inside := (List.sublist_mergeSort trans total tied List.filter_sublist).filter
    (o.compare item · == .eq)
  have again : (items.filter (o.compare item · == .eq)).filter (o.compare item · == .eq) =
      items.filter (o.compare item · == .eq) :=
    List.filter_eq_self.mpr fun a member => (List.mem_filter.mp member).2
  rw [again] at inside
  exact (inside.eq_of_length (elements.filter _).length_eq.symm).symm

end SortOptions

theorem sorts {e : Engine} {name value : String} {options : List String} {o : SortOptions}
    (found : e.definition? name = some value) (chosen : SortOptions.read {} options = .ok o) :
    Command.list ("SORT" :: name :: options) e =
      (.done, e.define name (ListValue.join (o.sort (elementsOf value)))) := by
  have items : itemsOf? e.definition? name = some (elementsOf value) := by
    rw [itemsOf?, found]
    rfl
  have answered : answer e.definition? "SORT" (name :: options) =
      writeList name (o.sort (elementsOf value)) := by
    change sort e.definition? (name :: options) = _
    simp only [sort, chosen, items, bind, Except.bind]
  rw [Command.list, Step.bindRan (s := MonadState.get) (e := e) rfl, answered]
  rfl

/-- Sorting keeps the elements, puts them in order and keeps the order of those that are equal in
it. In the variable they are the same elements if each of them stands alone there. -/
theorem sortKeepsElements :
    ((∀ a b, NaturalOrder.compare b a = (NaturalOrder.compare a b).swap) ∧
      (∀ a b c, (NaturalOrder.compare a b).isLE → (NaturalOrder.compare b c).isLE →
        (NaturalOrder.compare a c).isLE) ∧
      ∀ a b, NaturalOrder.compare a b = List.compareLex NaturalOrder.Piece.compare
        (NaturalOrder.pieces (Text.bytes a.toList)) (NaturalOrder.pieces (Text.bytes b.toList))) ∧
    (∀ o : SortOptions, SortOptions.read {} o.words = .ok o) ∧
    ∀ {e : Engine} {name value : String} {options : List String} {o : SortOptions},
      e.Writable → e.definition? name = some value → SortOptions.read {} options = .ok o →
      let sorted := o.ascending.sort (elementsOf value)
      let written := if o.descending = some true then sorted.reverse else sorted
      let e' := e.define name (ListValue.join written)
      Command.list ("SORT" :: name :: options) e = (.done, e') ∧
      o.Arranges (elementsOf value) sorted ∧
      ((∀ item ∈ elementsOf value, ListValue.StandsAlone item) →
        itemsOf? e'.definition? name = some written) := by
  refine ⟨⟨fun a b => Std.OrientedCmp.eq_swap, fun a b c => Std.TransCmp.isLE_trans,
    NaturalOrder.comparePieces⟩, SortOptions.readWords, ?_⟩
  intro e name value options o writable found chosen sorted written e'
  have arranges := o.ascendingArranges (elementsOf value)
  refine ⟨sorts found chosen, arranges, fun alone => ?_⟩
  have same : written.Perm (elementsOf value) := by
    dsimp only [written]
    split
    · exact (List.reverse_perm _).trans arranges.elements
    · exact arranges.elements
  rw [itemsOf?, writable.shows]
  exact congrArg some (elementsJoin same alone)

theorem numbersSortByValue :
    let options := ["ORDER", "DESCENDING", "COMPARE", "NATURAL", "CASE", "INSENSITIVE"]
    let e := (Engine.start { mode := .script } {} []).define "l" "a10;[x;y];a2;A02"
    let e' := e.define "l" "a10;A02;a2;[x;y]"
    e.Writable ∧ e.definition? "l" = some "a10;[x;y];a2;A02" ∧
      SortOptions.read {} options = .ok ⟨some .natural, some true, some true⟩ ∧
      (∀ item ∈ elementsOf "a10;[x;y];a2;A02", ListValue.StandsAlone item) ∧
      Command.list ("SORT" :: "l" :: options) e = (.done, e') ∧
      itemsOf? e'.definition? "l" = some ["a10", "A02", "a2", "[x;y]"] := by
  let o : SortOptions := ⟨some .natural, some true, some false⟩
  have bracket : o.compare "a10" "[x;y]" = .gt := by decide +kernel
  have spelling : o.compare "a2" "A02" = .eq := by decide +kernel
  have least : o.compare "[x;y]" "a2" = .lt := by decide +kernel
  have greater : o.compare "a10" "a2" = .gt := by decide +kernel
  have greatest : o.compare "a10" "A02" = .gt := by decide +kernel
  have sorted : o.sort ["a10", "[x;y]", "a2", "A02"] = ["[x;y]", "a2", "A02", "a10"] := by
    simp [SortOptions.sort, List.mergeSort, List.MergeSort.Internal.splitInTwo, bracket, spelling,
      least, greater, greatest, show o.descending = some false from rfl]
  have split : elementsOf "a10;[x;y];a2;A02" = ["a10", "[x;y]", "a2", "A02"] := by decide +kernel
  have start := Engine.writableReady (Engine.homeboundStart { mode := .script } {} []) rfl
  have writable := start.define "l" "a10;[x;y];a2;A02"
  have found : ((Engine.start { mode := .script } {} []).define "l" "a10;[x;y];a2;A02").definition?
      "l" = some "a10;[x;y];a2;A02" := by decide +kernel
  have alone : ∀ item ∈ elementsOf "a10;[x;y];a2;A02", ListValue.StandsAlone item := by
    decide +kernel
  have chosen : SortOptions.read {} ["ORDER", "DESCENDING", "COMPARE", "NATURAL", "CASE",
      "INSENSITIVE"] = .ok ⟨some .natural, some true, some true⟩ := rfl
  obtain ⟨ran, -, reads⟩ := sortKeepsElements.2.2 writable found chosen
  rw [split] at ran reads
  rw [show SortOptions.ascending ⟨some .natural, some true, some true⟩ = o from rfl, sorted]
    at ran reads
  exact ⟨writable, found, chosen, alone, ran, reads (split ▸ alone)⟩

/-- An element with a semicolon is two afterwards. -/
theorem escapedElementSplits :
    let e := (Engine.start { mode := .script } {} []).define "l" "c\\;a;b"
    let e' := e.define "l" "b;c;a"
    Command.list ["SORT", "l", "ORDER", "ASCENDING"] e = (.done, e') ∧
      itemsOf? e.definition? "l" = some ["c;a", "b"] ∧
      itemsOf? e'.definition? "l" = some ["b", "c", "a"] ∧ ¬["b", "c", "a"].Perm ["c;a", "b"] := by
  intro e e'
  let o : SortOptions := { descending := some false }
  have found : e.definition? "l" = some "c\\;a;b" := by decide +kernel
  have split : elementsOf "c\\;a;b" = ["c;a", "b"] := by decide +kernel
  have greater : o.compare "c;a" "b" = .gt := by decide +kernel
  have sorted : o.sort ["c;a", "b"] = ["b", "c;a"] := by
    simp [SortOptions.sort, List.mergeSort, List.MergeSort.Internal.splitInTwo, greater,
      show o.descending = some false from rfl]
  refine ⟨?_, by decide +kernel, by decide +kernel, by decide⟩
  rw [sorts found (o := o) rfl, split, sorted]
  rfl

end Command.ListOperation
end CMakeScript
