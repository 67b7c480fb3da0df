import CMakeScript.Expansion.Template
/-! The expansion of a text one turn at a time. Every turn takes at least one character away, so a
run with as many steps as the text is long is never cut short. -/
namespace CMakeScript.Expansion

abbrev Continuation := List OpenReference → List Char → List Char →
  Except ExpandError (List Char)

def turn (source : VariableSource) (options : ExpandOptions) (step : Continuation)
    (refs : List OpenReference) (done : List Char) (c : Char) (cs : List Char) :
    Except ExpandError (List Char) :=
  let plain : Except ExpandError (List Char) :=
    if !refs.isEmpty && Text.isAscii c && !isNameChar c then
      .error (.invalidNameChar c done.reverse)
    else step refs (c :: done) cs
  if c = '}' then
    match refs with
    | [] => plain
    | ref :: outer =>
      let value := (source.lookup ref.kind (String.ofList done.reverse)).getD ""
      let text := quoteValue (options.escapeQuotes && outer.isEmpty) value
      step outer (text.reverse ++ ref.before) cs
  else if c = '$' ∧ !options.atOnly then
    match opening? (c :: cs) with
    | some (kind, length) => step (⟨kind, done⟩ :: refs) [] ((c :: cs).drop length)
    | none =>
      if refs.isEmpty then step refs (c :: done) cs
      else .error (.invalidNameChar c done.reverse)
  else if c = '\\' ∧ !options.noEscapes then
    match cs with
    | [] => .error (.invalidEscape none)
    | d :: rest =>
      match controlEscape? d with
      | some control => step refs (control :: done) rest
      | none =>
        if d = ';' ∧ refs.isEmpty then step refs (d :: c :: done) rest
        else if Text.isAlphanumeric d then .error (.invalidEscape (some d))
        else step refs (d :: done) rest
  else if c = '@' ∧ (options.replaceAt || options.atOnly) ∧ refs.isEmpty then
    match atName? cs with
    | some (name, rest) =>
      let value := (source.normal (String.ofList name)).getD ""
      step refs ((quoteValue options.escapeQuotes value).reverse ++ done) rest
    | none => step refs (c :: done) cs
  else plain

variable (source : VariableSource) (options : ExpandOptions)

theorem runTurn (fuel : Nat) (refs : List OpenReference) (done : List Char) (c : Char)
    (cs : List Char) : run source options (fuel + 1) refs done (c :: cs) =
      turn source options (run source options fuel) refs done c cs := by
  rw [run.eq_def]
  rfl

theorem atNameIff {cs name rest : List Char} :
    atName? cs = some (name, rest) ↔
      name ≠ [] ∧ cs.takeWhile isNameChar = name ∧ cs.dropWhile isNameChar = '@' :: rest := by
  unfold atName?
  split
  · next empty =>
    exact ⟨nofun, fun ⟨occupied, front, _⟩ => absurd (front.symm.trans empty) occupied⟩
  · next behind occupied =>
    rw [behind]
    constructor
    · rintro ⟨⟩
      exact ⟨occupied, rfl, rfl⟩
    · rintro ⟨-, rfl, ⟨⟩⟩
      rfl
  · next other =>
    refine ⟨nofun, fun ⟨_, _, behind⟩ => ?_⟩
    exact absurd behind (other _)

theorem atNameRest {cs name rest : List Char} (found : atName? cs = some (name, rest)) :
    cs = name ++ '@' :: rest := by
  obtain ⟨-, front, behind⟩ := atNameIff.mp found
  rw [← front, ← behind, List.takeWhile_append_dropWhile]

theorem turnShorter {step step' : Continuation} {refs : List OpenReference} {done : List Char}
    {c : Char} {cs : List Char}
    (same : ∀ refs done ds, ds.length ≤ cs.length → step refs done ds = step' refs done ds) :
    turn source options step refs done c cs = turn source options step' refs done c cs := by
  have here (refs : List OpenReference) (done : List Char) :
      step refs done cs = step' refs done cs := same refs done cs (Nat.le_refl _)
  unfold turn
  simp only [here]
  refine ite_congr rfl (fun _ => rfl) fun _ => ite_congr rfl (fun _ => ?_) fun _ =>
    ite_congr rfl (fun _ => ?_) fun _ => ite_congr rfl (fun _ => ?_) fun _ => rfl
  · cases opens : opening? (c :: cs) with
    | none => rfl
    | some opening =>
      refine same _ _ _ ?_
      have taken := opening.1.openingPositive
      rw [(openingOnly opens).1, List.length_drop, List.length_cons]
      omega
  · cases cs with
    | nil => rfl
    | cons d rest =>
      have after (refs : List OpenReference) (done : List Char) :
        step refs done rest = step' refs done rest := same refs done rest (Nat.le_succ _)
      simp only [after]
  · cases at' : atName? cs with
    | none => rfl
    | some found =>
      obtain ⟨name, rest⟩ := found
      refine same _ _ _ ?_
      rw [atNameRest at', List.length_append, List.length_cons]
      omega

theorem runEnough {fuel more : Nat} {refs : List OpenReference} {done cs : List Char}
    (enough : cs.length ≤ fuel) (enough' : cs.length ≤ more) :
    run source options fuel refs done cs = run source options more refs done cs := by
  induction fuel generalizing more refs done cs with
  | zero =>
    obtain rfl := List.eq_nil_of_length_eq_zero (Nat.le_zero.mp enough)
    cases more <;> rfl
  | succ fuel ih =>
    cases cs with
    | nil => cases more <;> rfl
    | cons c cs =>
      obtain ⟨more, rfl⟩ := Nat.exists_eq_succ_of_ne_zero (Nat.ne_of_gt (Nat.zero_lt_of_lt enough'))
      rw [runTurn, runTurn]
      refine turnShorter source options fun refs done ds short => ih ?_ ?_
      · exact Nat.le_trans short (Nat.le_of_succ_le_succ enough)
      · exact Nat.le_trans short (Nat.le_of_succ_le_succ enough')

def walk (refs : List OpenReference) (done cs : List Char) : Except ExpandError (List Char) :=
  run source options cs.length refs done cs

theorem walkTurn (refs : List OpenReference) (done : List Char) (c : Char) (cs : List Char) :
    walk source options refs done (c :: cs) =
      turn source options (walk source options) refs done c cs := by
  rw [walk, List.length_cons, runTurn]
  exact turnShorter source options fun refs done ds short =>
    runEnough source options short (Nat.le_refl _)

theorem walkEnd (refs : List OpenReference) (done : List Char) :
    walk source options refs done [] =
      if refs.isEmpty then .ok done.reverse else .error .unterminated := rfl

theorem expandWalk (text : String) :
    expand source options text =
      (walk source options [] [] text.toList).map String.ofList := rfl

end CMakeScript.Expansion
