import CMakeScript.Text.Bytes
/-! The lines of a text by the offsets at which they start. The line of an offset is found by
halving the table. -/
namespace CMakeScript

structure LineTable where
  starts : Array Nat
  deriving DecidableEq, Repr

namespace LineTable

def startsBehind (offset : Nat) : List Char → List Nat
  | [] => []
  | c :: cs =>
    let next := offset + c.utf8Size
    if c = '\n' then next :: startsBehind next cs else startsBehind next cs

def ofText (text : List Char) : LineTable := ⟨(0 :: startsBehind 0 text).toArray⟩

def search (t : LineTable) (offset low high : Nat) (inside : high ≤ t.starts.size) : Nat :=
  if more : low < high then
    let middle := (low + high) / 2
    if t.starts[middle] = offset then middle + 1
    else if t.starts[middle] < offset then search t offset (middle + 1) high inside
    else search t offset low middle (by omega)
  else low
termination_by high - low

def lineAt (t : LineTable) (offset : Nat) : Nat :=
  t.search offset 0 t.starts.size (Nat.le_refl _)

structure Divides (t : LineTable) (offset count : Nat) : Prop where
  rising : ∀ i j (_ : i < j) (_ : j < t.starts.size), t.starts[i] < t.starts[j]
  before : ∀ i (_ : i < t.starts.size), i < count → t.starts[i] ≤ offset
  behind : ∀ i (_ : i < t.starts.size), count ≤ i → offset < t.starts[i]

theorem searchDivides {t : LineTable} {offset count low high : Nat}
    (divides : t.Divides offset count) (inside : high ≤ t.starts.size)
    (lower : low ≤ count) (upper : count ≤ high) :
    t.search offset low high inside = count := by
  fun_induction search t offset low high inside with
  | case1 low high inside more middle found =>
    have known : middle < t.starts.size := by omega
    have here : middle < count := Nat.lt_of_not_le fun beyond => by
      have later := divides.behind middle known beyond
      omega
    refine Nat.le_antisymm here (Nat.le_of_not_lt fun further => ?_)
    have next := divides.before (middle + 1) (by omega) further
    have rising := divides.rising middle (middle + 1) (by omega) (by omega)
    omega
  | case2 low high inside more middle other less ih =>
    have known : middle < t.starts.size := by omega
    refine ih (Nat.lt_of_not_le fun beyond => ?_) upper
    have later := divides.behind middle known beyond
    omega
  | case3 low high inside more middle other notLess ih =>
    have known : middle < t.starts.size := by omega
    refine ih lower (Nat.le_of_not_lt fun short => ?_)
    have earlier := divides.before middle known short
    omega
  | case4 => omega

theorem dividesAppend {before behind : List Nat} {offset : Nat}
    (rising : (before ++ behind).Pairwise (· < ·)) (earlier : ∀ start ∈ before, start ≤ offset)
    (later : ∀ start ∈ behind, offset < start) :
    (⟨(before ++ behind).toArray⟩ : LineTable).Divides offset before.length where
  rising i j less inside := by
    simpa using List.pairwise_iff_getElem.mp rising i j (by simp at inside; simp; omega)
      (by simpa using inside) less
  before i inside bound := by
    simp only [List.getElem_toArray, List.getElem_append_left bound]
    exact earlier _ (List.getElem_mem bound)
  behind i inside bound := by
    simp only [List.getElem_toArray, List.getElem_append_right bound]
    exact later _ (List.getElem_mem _)

theorem startsBehindAppend (offset : Nat) (front back : List Char) :
    startsBehind offset (front ++ back) =
      startsBehind offset front ++ startsBehind (offset + Text.byteLength front) back := by
  induction front generalizing offset with
  | nil => rfl
  | cons c front ih =>
    simp only [List.cons_append, startsBehind, Text.byteLength, ih, Nat.add_assoc]
    split <;> rfl

theorem startsBehindLength (offset : Nat) (text : List Char) :
    (startsBehind offset text).length = text.count '\n' := by
  induction text generalizing offset with
  | nil => rfl
  | cons c text ih =>
    by_cases feed : c = '\n'
    · simp [startsBehind, feed, ih]
    · simp [startsBehind, feed, ih]

theorem startsBehindBounds (offset : Nat) (text : List Char) :
    ∀ start ∈ startsBehind offset text, offset < start ∧ start ≤ offset + Text.byteLength text := by
  induction text generalizing offset with
  | nil => nofun
  | cons c text ih =>
    intro start member
    have size := c.utf8Size_pos
    have later : start ∈ startsBehind (offset + c.utf8Size) text →
        offset < start ∧ start ≤ offset + Text.byteLength (c :: text) := by
      intro inside
      have bounds := ih _ start inside
      rw [Text.byteLength]
      omega
    rw [startsBehind] at member
    split at member
    · obtain rfl | inside := List.mem_cons.mp member
      · rw [Text.byteLength]
        omega
      · exact later inside
    · exact later member

theorem startsBehindRising (offset : Nat) (text : List Char) :
    (startsBehind offset text).Pairwise (· < ·) := by
  induction text generalizing offset with
  | nil => exact .nil
  | cons c text ih =>
    rw [startsBehind]
    split
    · exact List.pairwise_cons.mpr
        ⟨fun start member => (startsBehindBounds _ text start member).1, ih _⟩
    · exact ih _

theorem dividesText (front back : List Char) :
    (ofText (front ++ back)).Divides (Text.byteLength front) (1 + front.count '\n') := by
  have split : 0 :: startsBehind 0 (front ++ back) =
      (0 :: startsBehind 0 front) ++ startsBehind (Text.byteLength front) back := by
    rw [startsBehindAppend, Nat.zero_add, List.cons_append]
  have count : (0 :: startsBehind 0 front).length = 1 + front.count '\n' := by
    rw [List.length_cons, startsBehindLength, Nat.add_comm]
  rw [ofText, split, ← count]
  refine dividesAppend ?_ (List.forall_mem_cons.mpr ⟨Nat.zero_le _, fun start member => ?_⟩)
    fun start member => (startsBehindBounds _ back start member).1
  · rw [← split]
    exact List.pairwise_cons.mpr
      ⟨fun start member => (startsBehindBounds 0 _ start member).1, startsBehindRising 0 _⟩
  · have bounds := startsBehindBounds 0 front start member
    omega

theorem lineAtCut (front back : List Char) :
    (ofText (front ++ back)).lineAt (Text.byteLength front) = 1 + front.count '\n' := by
  have divides := dividesText front back
  refine searchDivides divides (Nat.le_refl _) (Nat.zero_le _) ?_
  have lengths := startsBehindLength 0 (front ++ back)
  rw [List.count_append] at lengths
  simp only [ofText, List.size_toArray, List.length_cons]
  omega

end LineTable

namespace Text

theorem feedsEncoded (c : Char) :
    (String.utf8EncodeChar c).count 10 = if c = '\n' then 1 else 0 := by
  by_cases feed : c = '\n'
  · subst feed
    decide
  · rw [if_neg feed, List.count_eq_zero]
    intro member
    cases ascii : isAscii c with
    | true =>
      obtain ⟨b, encoded, back⟩ := asciiBytes ascii
      rw [encoded, List.mem_singleton] at member
      subst member
      exact feed (back.symm.trans (by decide))
    | false => exact absurd (otherBytes ascii 10 member) (by decide)

theorem feedsBytes (cs : List Char) : (bytes cs).count 10 = cs.count '\n' := by
  induction cs with
  | nil => rfl
  | cons c cs ih =>
    rw [show bytes (c :: cs) = String.utf8EncodeChar c ++ bytes cs from rfl, List.count_append,
      feedsEncoded, ih, List.count_cons, Nat.add_comm]
    simp only [beq_iff_eq]

end Text
end CMakeScript
