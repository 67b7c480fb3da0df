import CMakeScript.Proofs.ExpansionTurns
/-! The expansion follows the grammar. It goes through what is read of a text and stands where the
reading ends; every text can be read up to its end or up to a fault, so the two agree on all
texts. -/
namespace CMakeScript.Expansion

theorem nameCharApart {c : Char} (name : isNameChar c ∨ Text.isAscii c = false) :
    c ∉ ['}', '$', '\\'] := by
  intro member
  simp only [List.mem_cons, List.not_mem_nil, or_false] at member
  revert name
  rcases member with rfl | rfl | rfl <;> decide

section

variable (source : VariableSource) {refs : List OpenReference} {inside : Bool}
  (place : refs.isEmpty = !inside) (done : List Char)

include place

theorem walkPlain {c : Char} {cs : List Char} (plain : Plain inside c cs) :
    walk source {} refs done (c :: cs) = walk source {} refs (c :: done) cs := by
  rw [walkTurn, turn.eq_def]
  cases inside with
  | false =>
    obtain rfl : refs = [] := List.isEmpty_iff.mp place
    obtain ⟨notEscape, notOpening⟩ : c ≠ '\\' ∧ opening? (c :: cs) = none := plain
    simp [notEscape, notOpening]
  | true =>
    have name : isNameChar c ∨ Text.isAscii c = false := plain
    have apart := nameCharApart name
    simp only [List.mem_cons, List.not_mem_nil, or_false, not_or] at apart
    rcases name with name | name <;> simp [apart, name]

theorem walkEscape {c : Char} (can : CanEscape c) (cs : List Char) :
    walk source {} refs done ('\\' :: c :: cs) =
      walk source {} refs ((escaped inside c).reverse ++ done) cs := by
  rw [walkTurn, turn.eq_def, escaped]
  cases control : controlEscape? c with
  | some control => simp [control]
  | none =>
    have other : Text.isAlphanumeric c = false := by simpa [CanEscape, control] using can
    by_cases separator : c = ';'
    · cases inside <;> simp_all
    · simp [control, other, separator]

omit place in
theorem walkOpen (kind : ReferenceKind) (cs : List Char) :
    walk source {} refs done (kind.opening ++ cs) =
      walk source {} (⟨kind, done⟩ :: refs) [] cs := by
  obtain ⟨rest, dollar⟩ : ∃ rest, kind.opening ++ cs = '$' :: rest := by cases kind <;> exact ⟨_, rfl⟩
  have opens := openingSpelled kind cs
  rw [dollar] at opens ⊢
  rw [walkTurn, turn.eq_def, opens, ← dollar]
  simp

omit place in
theorem walkClose (ref : OpenReference) (cs : List Char) :
    walk source {} (ref :: refs) done ('}' :: cs) =
      walk source {} refs
        (((source.lookup ref.kind (String.ofList done.reverse)).getD "").toList.reverse ++
          ref.before) cs := by
  rw [walkTurn, turn.eq_def]
  simp [quoteValue]

theorem walkFault {cs : List Char} {error : ExpandError}
    (fault : Fault inside done.reverse cs error) :
    walk source {} refs done cs = .error error := by
  cases fault with
  | unterminated within => simp [walkEnd, place, within]
  | nameChar within ascii other special rest =>
    simp only [List.mem_cons, List.not_mem_nil, or_false, not_or] at special
    simp [walkTurn, turn, place, within, ascii, other, special]
  | dollar within closed => simp [walkTurn, turn, place, within, closed]
  | @escape c other rest =>
    obtain ⟨control, other⟩ : controlEscape? c = none ∧ Text.isAlphanumeric c = true := by
      simpa [CanEscape] using other
    have notSeparator : c ≠ ';' := by
      rintro rfl
      cases other
    simp [walkTurn, turn, control, other, notSeparator]
  | escapeEnd => simp [walkTurn, turn]

end

theorem Template.walked (source : VariableSource) (t : Template) {inside : Bool}
    {after : List Char} (readable : t.Readable inside after) {refs : List OpenReference}
    (place : refs.isEmpty = !inside) (done : List Char) :
    walk source {} refs done (t.spell ++ after) =
      walk source {} refs ((t.value source inside).reverse ++ done) after := by
  induction t generalizing inside after refs done with
  | done => rfl
  | literal c rest ih =>
    obtain ⟨plain, readable⟩ := readable
    rw [spell, List.cons_append, walkPlain source place done plain, ih readable place]
    simp [value]
  | escape c rest ih =>
    obtain ⟨can, readable⟩ := readable
    rw [spell, List.cons_append, List.cons_append, walkEscape source place done can,
      ih readable place]
    simp [value]
  | reference kind name rest ihName ih =>
    obtain ⟨named, readable⟩ := readable
    rw [spell, List.append_assoc, walkOpen, List.append_assoc, List.cons_append,
      ihName named rfl, walkClose, ih readable place]
    simp [value]

namespace Reading

def refs (source : VariableSource) : Reading → List OpenReference
  | top _ => []
  | within outer kind _ => ⟨kind, (outer.latest source).reverse⟩ :: outer.refs source

theorem refsPlace (source : VariableSource) (r : Reading) :
    (r.refs source).isEmpty = !r.inside := by
  cases r <;> rfl

theorem walked (source : VariableSource) {r : Reading} {after : List Char}
    (readable : r.Readable after) :
    walk source {} [] [] (r.spell ++ after) =
      walk source {} (r.refs source) (r.latest source).reverse after := by
  induction r generalizing after with
  | top text =>
    have walked := text.walked source readable (rfl : ([] : List OpenReference).isEmpty = _) []
    rwa [List.append_nil] at walked
  | within outer kind name ih =>
    obtain ⟨before, named⟩ := readable
    rw [spell, List.append_assoc, List.append_assoc, ih before, walkOpen,
      name.walked source named rfl, List.append_nil]
    rfl

def append : Reading → Template → Reading
  | top text, more => top (text.append more)
  | within outer kind name, more => within outer kind (name.append more)

@[simp] theorem appendSpell (r : Reading) (more : Template) :
    (r.append more).spell = r.spell ++ more.spell := by
  cases r <;> simp [append, spell]

theorem appendReadable {r : Reading} {more : Template} {after : List Char}
    (readable : r.Readable (more.spell ++ after)) (further : more.Readable r.inside after) :
    (r.append more).Readable after := by
  cases r with
  | top text => exact (text.appendReadable more false after).mpr ⟨readable, further⟩
  | within outer kind name =>
    obtain ⟨before, named⟩ := readable
    refine ⟨?_, (name.appendReadable more true after).mpr ⟨named, further⟩⟩
    rwa [Template.appendSpell, List.append_assoc]

def Stops (source : VariableSource) (r : Reading) (after : List Char) : Prop :=
  (∃ text, r = top text ∧ after = []) ∨ ∃ error, Fault r.inside (r.latest source) after error

def GoesOn (r : Reading) (after : List Char) : Prop :=
  ∃ (r' : Reading) (after' : List Char), r'.spell ++ after' = r.spell ++ after ∧
    r'.Readable after' ∧ after'.length < after.length

section

variable {r : Reading} {c : Char} {cs : List Char}

theorem literalGoesOn (readable : r.Readable (c :: cs)) (plain : Plain r.inside c cs) :
    r.GoesOn (c :: cs) :=
  ⟨r.append (.literal c .done), cs, by simp [Template.spell],
    appendReadable readable ⟨plain, trivial⟩, Nat.lt_succ_self _⟩

theorem escapeGoesOn (readable : r.Readable ('\\' :: c :: cs)) (can : CanEscape c) :
    r.GoesOn ('\\' :: c :: cs) :=
  ⟨r.append (.escape c .done), cs, by simp [Template.spell],
    appendReadable readable ⟨can, trivial⟩, Nat.lt_succ_of_lt (Nat.lt_succ_self _)⟩

theorem openingGoesOn {kind : ReferenceKind} (readable : r.Readable (kind.opening ++ cs)) :
    r.GoesOn (kind.opening ++ cs) := by
  refine ⟨.within r kind .done, cs, by simp [spell, Template.spell], ⟨readable, trivial⟩, ?_⟩
  have opening := kind.openingPositive
  rw [List.length_append]
  omega

theorem closingGoesOn (readable : r.Readable ('}' :: cs)) (inside : r.inside = true) :
    r.GoesOn ('}' :: cs) := by
  cases r with
  | top text => cases inside
  | within outer kind name =>
    obtain ⟨before, named⟩ := readable
    refine ⟨outer.append (.reference kind name .done), cs, by simp [spell, Template.spell],
      appendReadable ?_ ⟨named, trivial⟩, Nat.lt_succ_self _⟩
    simpa [Template.spell] using before

end

theorem stopsOrGoesOn (source : VariableSource) {r : Reading} {after : List Char}
    (readable : r.Readable after) : r.Stops source after ∨ r.GoesOn after := by
  cases after with
  | nil =>
    cases r with
    | top text => exact .inl (.inl ⟨text, rfl, rfl⟩)
    | within outer kind name => exact .inl (.inr ⟨_, .unterminated rfl⟩)
  | cons c cs =>
    by_cases plain : Plain r.inside c cs
    · exact .inr (literalGoesOn readable plain)
    · by_cases backslash : c = '\\'
      · subst backslash
        cases cs with
        | nil => exact .inl (.inr ⟨_, .escapeEnd⟩)
        | cons d rest =>
          by_cases can : CanEscape d
          · exact .inr (escapeGoesOn readable can)
          · exact .inl (.inr ⟨_, .escape can rest⟩)
      · cases opens : opening? (c :: cs) with
        | some opening =>
          obtain ⟨-, rest, split⟩ := openingOnly opens
          rw [split] at readable ⊢
          exact .inr (openingGoesOn readable)
        | none =>
          have inside : r.inside = true := by
            refine eq_true_of_ne_false fun outside => plain ?_
            rw [outside]
            exact ⟨backslash, opens⟩
          rw [inside] at plain
          obtain ⟨other, ascii⟩ : ¬isNameChar c = true ∧ ¬Text.isAscii c = false :=
            not_or.mp plain
          by_cases dollar : c = '$'
          · subst dollar
            exact .inl (.inr ⟨_, .dollar inside opens⟩)
          · by_cases closes : c = '}'
            · subst closes
              exact .inr (closingGoesOn readable inside)
            · refine .inl (.inr ⟨_, .nameChar inside (by simpa using ascii) (by simpa using other)
                ?_ cs⟩)
              simp [closes, dollar, backslash]

theorem stopsSomewhere (source : VariableSource) {r : Reading} {after : List Char}
    (readable : r.Readable after) : ∃ (r' : Reading) (after' : List Char),
      r'.spell ++ after' = r.spell ++ after ∧ r'.Readable after' ∧ r'.Stops source after' := by
  rcases stopsOrGoesOn source readable with stops | ⟨r', after', same, further, shorter⟩
  · exact ⟨r, after, rfl, readable, stops⟩
  · obtain ⟨last, rest, same', readable', stops⟩ := stopsSomewhere source further
    exact ⟨last, rest, same'.trans same, readable', stops⟩
termination_by after.length

end Reading

section

variable (source : VariableSource) (text : String)

theorem templateExpands {t : Template} (readable : t.Readable false [])
    (same : t.spell = text.toList) :
    expand source {} text = .ok (String.ofList (t.value source false)) := by
  have walked := Reading.walked source (r := .top t) readable
  rw [Reading.spell, List.append_nil, same] at walked
  rw [expandWalk, walked, walkEnd]
  simp [Reading.refs, Reading.latest, Except.map]

theorem faultFails {r : Reading} {after : List Char} {error : ExpandError}
    (readable : r.Readable after) (same : r.spell ++ after = text.toList)
    (fault : Fault r.inside (r.latest source) after error) :
    expand source {} text = .error error := by
  have walked := Reading.walked source readable
  rw [same, walkFault source (r.refsPlace source) _ (by rwa [List.reverse_reverse])] at walked
  rw [expandWalk, walked]
  rfl

theorem templateOrFault :
    (∃ t : Template, t.Readable false [] ∧ t.spell = text.toList) ∨
      ∃ (r : Reading) (after : List Char) (error : ExpandError), r.Readable after ∧
        r.spell ++ after = text.toList ∧ Fault r.inside (r.latest source) after error := by
  have start : (Reading.top .done).Readable text.toList := trivial
  obtain ⟨r, after, same, readable, stops⟩ := Reading.stopsSomewhere source start
  rw [Reading.spell, Template.spell, List.nil_append] at same
  rcases stops with ⟨t, rfl, rfl⟩ | ⟨error, fault⟩
  · rw [Reading.spell, List.append_nil] at same
    exact .inl ⟨t, readable, same⟩
  · exact .inr ⟨r, after, error, readable, same, fault⟩

theorem expandsIff (value : String) : expand source {} text = .ok value ↔
    ∃ t : Template, t.Readable false [] ∧ t.spell = text.toList ∧
      value = String.ofList (t.value source false) := by
  constructor
  · intro expanded
    rcases templateOrFault source text with ⟨t, readable, same⟩ | ⟨r, _, _, readable, same, fault⟩
    · rw [templateExpands source text readable same] at expanded
      exact ⟨t, readable, same, (Except.ok.inj expanded).symm⟩
    · cases expanded.symm.trans (faultFails source text readable same fault)
  · rintro ⟨t, readable, same, rfl⟩
    exact templateExpands source text readable same

theorem failsIff (error : ExpandError) : expand source {} text = .error error ↔
    ∃ (r : Reading) (after : List Char), r.Readable after ∧ r.spell ++ after = text.toList ∧
      Fault r.inside (r.latest source) after error := by
  constructor
  · intro failed
    rcases templateOrFault source text with ⟨t, readable, same⟩ |
      ⟨r, after, error', readable, same, fault⟩
    · cases failed.symm.trans (templateExpands source text readable same)
    · cases failed.symm.trans (faultFails source text readable same fault)
      exact ⟨r, after, readable, same, fault⟩
  · rintro ⟨r, after, readable, same, fault⟩
    exact faultFails source text readable same fault

end

end CMakeScript.Expansion
