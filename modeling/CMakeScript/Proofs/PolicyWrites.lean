import CMakeScript.Proofs.PolicyView
import CMakeScript.Proofs.RecordedPolicies
/-! Where a policy setting shows. It is written to a frame and, through weak frames, to those above;
it shows in these, and below them as far as no frame in between has a setting of its own. -/
namespace CMakeScript.PolicyFrames

/-- The frames from a frame towards the root, up to the first one that is not weak. -/
inductive Written (a : PolicyFrames) : Nat → Nat → Prop where
  | here {frame up f} (found : a.node? frame = some (up, f)) : Written a frame frame
  | above {frame up f w} (found : a.node? frame = some (up, f)) (weak : f.weak = true)
    (further : Written a up w) : Written a frame w

/-- The way from a frame comes to one that is written to, and no frame before that is written to or
has a setting of the policy. -/
def Shows (a : PolicyFrames) (frame : Nat) (p : Policy) (g : Nat) : Prop :=
  ∃ before first after, a.ancestors g = before ++ first :: after ∧ a.Written frame first.1 ∧
    ∀ node ∈ before, ¬a.Written frame node.1 ∧ node.2.settings.get? p = none

variable {a : PolicyFrames} {frame up g : Nat} {f : PolicyFrame} {p q : Policy}
  {status : PolicyStatus}

theorem reachWritten (falling : a.Falling) {w : Nat} :
    w ∈ reach (a.ancestors frame) ↔ a.Written frame w := by
  induction frame using Nat.strongRecOn with
  | ind frame ih =>
    cases found : a.node? frame with
    | none =>
      rw [Arena.ancestorsNone found]
      constructor
      · nofun
      · intro written
        cases written with
        | here known => simp [found] at known
        | above known => simp [found] at known
    | some node =>
      obtain ⟨up, f⟩ := node
      rw [Arena.ancestorsOfNode falling found, reach]
      constructor
      · intro member
        split at member
        case isTrue weak =>
          obtain rfl | further := List.mem_cons.mp member
          · exact .here found
          · exact .above found weak ((ih up (falling found)).mp further)
        case isFalse =>
          obtain rfl := List.mem_singleton.mp member
          exact .here found
      · intro written
        cases written with
        | here => split <;> simp
        | above known weak further =>
          cases found.symm.trans known
          rw [if_pos weak]
          exact List.mem_cons_of_mem _ ((ih up (falling found)).mpr further)

theorem fallingWrite (falling : a.Falling) (frame : Nat) (p : Policy) (status : PolicyStatus) :
    (a.write frame p status).Falling := by
  rw [← Arena.fallingMap (f := PolicyFrame.weak), Scopes.weakWrite]
  exact Arena.fallingMap.mpr falling

theorem writesGet (ids : List Nat) (a : PolicyFrames) (g : Nat) (p q : Policy)
    (status : PolicyStatus) :
    ((ids.foldl (fun (acc : PolicyFrames) id => acc.modify id fun f =>
      { f with settings := f.settings.set p status }) a).node? g).map
        (fun node => (node.1, node.2.settings.get? q)) =
      (a.node? g).map fun node =>
        (node.1, if g ∈ ids ∧ q = p then some status else node.2.settings.get? q) := by
  induction ids generalizing a with
  | nil => simp
  | cons id rest ih =>
    rw [List.foldl_cons, ih, Arena.nodeModify]
    cases a.node? g with
    | none => simp
    | some node =>
      by_cases same : g = id
      · by_cases named : q = p
        · simp [same, named, PolicySettings.getSet]
        · simp [same, named, PolicySettings.getSet, Ne.symm named]
      · simp [same]

theorem settingNone (absent : a.node? g = none) : a.setting? g p = none := by
  rw [setting?, Arena.ancestorsNone absent]
  rfl

theorem settingOfNode (falling : a.Falling) (found : a.node? g = some (up, f)) :
    a.setting? g p = (f.settings.get? p).or (a.setting? up p) := by
  rw [setting?, Arena.ancestorsOfNode falling found, List.findSome?_cons]
  dsimp only
  cases f.settings.get? p with
  | none => rfl
  | some status => rfl

theorem settingWriteNone (absent : a.node? g = none) :
    (a.write frame p status).setting? g q = none := by
  have after := writesGet (reach (a.ancestors frame)) a g p q status
  rw [absent] at after
  exact settingNone (Option.map_eq_none_iff.mp after)

theorem settingWrite (falling : a.Falling) (found : a.node? g = some (up, f)) :
    (a.write frame p status).setting? g q =
      (if g ∈ reach (a.ancestors frame) ∧ q = p then some status else f.settings.get? q).or
        ((a.write frame p status).setting? up q) := by
  have after := writesGet (reach (a.ancestors frame)) a g p q status
  rw [found] at after
  obtain ⟨node, known, same⟩ := Option.map_eq_some_iff.mp after
  obtain ⟨rfl, shown⟩ := Prod.mk.inj same
  rw [settingOfNode (fallingWrite falling frame p status) known, shown]

theorem Written.known (written : a.Written frame g) : ∃ up f, a.node? g = some (up, f) := by
  induction written with
  | here found => exact ⟨_, _, found⟩
  | above _ _ _ ih => exact ih

theorem showsWritten (falling : a.Falling) (written : a.Written frame g) : a.Shows frame p g := by
  obtain ⟨up, f, found⟩ := written.known
  exact ⟨[], (g, f), a.ancestors up, Arena.ancestorsOfNode falling found, written, nofun⟩

theorem showsBelow (falling : a.Falling) (found : a.node? g = some (up, f))
    (apart : ¬a.Written frame g) :
    a.Shows frame p g ↔ f.settings.get? p = none ∧ a.Shows frame p up := by
  unfold Shows
  rw [Arena.ancestorsOfNode falling found]
  constructor
  · rintro ⟨before, first, after, same, written, unbound⟩
    cases before with
    | nil =>
      cases same
      exact absurd written apart
    | cons here before =>
      obtain ⟨rfl, further⟩ := List.cons.inj same
      obtain ⟨⟨-, free⟩, unbound⟩ := List.forall_mem_cons.mp unbound
      exact ⟨free, before, first, after, further, written, unbound⟩
  · rintro ⟨free, before, first, after, same, written, unbound⟩
    refine ⟨(g, f) :: before, first, after, by rw [same]; rfl, written, ?_⟩
    exact List.forall_mem_cons.mpr ⟨⟨apart, free⟩, unbound⟩

theorem settingElsewhere (falling : a.Falling) (apart : q ≠ p) :
    (a.write frame p status).setting? g q = a.setting? g q := by
  induction g using Nat.strongRecOn with
  | ind g ih =>
    cases found : a.node? g with
    | none => rw [settingWriteNone found, settingNone found]
    | some node =>
      obtain ⟨up, f⟩ := node
      rw [settingWrite falling found, if_neg fun both => apart both.2, ih up (falling found),
        settingOfNode falling found]

theorem settingWritten (falling : a.Falling) (written : a.Written frame g) :
    (a.write frame p status).setting? g p = some status := by
  obtain ⟨up, f, found⟩ := written.known
  rw [settingWrite falling found, if_pos ⟨(reachWritten falling).mpr written, rfl⟩, Option.some_or]

theorem settingBelow (falling : a.Falling) (apart : ¬a.Written frame g) :
    (a.Shows frame p g → (a.write frame p status).setting? g p = some status) ∧
    (¬a.Shows frame p g → (a.write frame p status).setting? g p = a.setting? g p) := by
  induction g using Nat.strongRecOn with
  | ind g ih =>
    cases found : a.node? g with
    | none =>
      refine ⟨fun shows => ?_, fun _ => by rw [settingWriteNone found, settingNone found]⟩
      obtain ⟨before, first, after, same, -⟩ := shows
      rw [Arena.ancestorsNone found] at same
      simp at same
    | some node =>
      obtain ⟨up, f⟩ := node
      have older := falling found
      have own : (a.write frame p status).setting? g p =
          (f.settings.get? p).or ((a.write frame p status).setting? up p) := by
        rw [settingWrite falling found, if_neg fun both => apart ((reachWritten falling).mp both.1)]
      rw [showsBelow falling found apart, own, settingOfNode falling found]
      cases bound : f.settings.get? p with
      | some status => exact ⟨nofun, fun _ => rfl⟩
      | none =>
        simp only [true_and, Option.none_or]
        by_cases above : a.Written frame up
        · exact ⟨fun _ => settingWritten falling above,
            fun hidden => absurd (showsWritten falling above) hidden⟩
        · exact ih up older above

theorem writesShowBelow {a : PolicyFrames} (falling : a.Falling) (frame : Nat) (p : Policy)
    (status : PolicyStatus) :
    let a' := a.write frame p status
    (∀ g, a.Written frame g → a'.setting? g p = some status) ∧
    (∀ g, ¬a.Written frame g →
      (a.Shows frame p g → a'.setting? g p = some status) ∧
      (¬a.Shows frame p g → a'.setting? g p = a.setting? g p)) ∧
    ∀ g q, q ≠ p → a'.setting? g q = a.setting? g q :=
  ⟨fun _ => settingWritten falling, fun _ => settingBelow falling,
    fun _ _ => settingElsewhere falling⟩

theorem settingShowsBeside :
    let own : PolicySettings := ⟨[(.cmp0054, .old)]⟩
    let a : PolicyFrames :=
      ⟨#[(0, {}), (1, { weak := true }), (2, { weak := true }), (2, {}), (4, { settings := own })]⟩
    let a' := a.write 3 .cmp0054 .new
    a.Falling ∧ a.Written 3 1 ∧ a'.setting? 1 .cmp0054 = some .new ∧
      ¬a.Written 3 4 ∧ a.Shows 3 .cmp0054 4 ∧ a'.setting? 4 .cmp0054 = some .new ∧
      ¬a.Written 3 5 ∧ ¬a.Shows 3 .cmp0054 5 ∧ a'.setting? 5 .cmp0054 = some .old := by
  intro own a a'
  have falling : a.Falling := by
    have root : (⟨#[(0, {})]⟩ : PolicyFrames).Falling := by
      intro id up f found
      obtain ⟨rfl, same⟩ := Arena.nodeSingle found
      cases same
      decide
    have second := Arena.fallingPush root (show 1 ≤ _ by decide) { weak := true }
    have third := Arena.fallingPush second (show 2 ≤ _ by decide) { weak := true }
    have fourth := Arena.fallingPush third (show 2 ≤ _ by decide) {}
    exact Arena.fallingPush fourth (show 4 ≤ _ by decide) { settings := own }
  obtain ⟨here, below, -⟩ := writesShowBelow falling 3 .cmp0054 .new
  have first : a.Written 3 1 := (reachWritten falling).mp (by decide)
  have fourth : ¬a.Written 3 4 := fun written =>
    absurd ((reachWritten falling).mpr written) (by decide)
  have fifth : ¬a.Written 3 5 := fun written =>
    absurd ((reachWritten falling).mpr written) (by decide)
  have branch : a.node? 4 = some (2, {}) := rfl
  have shows : a.Shows 3 .cmp0054 4 :=
    (showsBelow falling branch fourth).mpr
      ⟨rfl, showsWritten falling ((reachWritten falling).mp (by decide))⟩
  have bound : a.node? 5 = some (4, { settings := own }) := rfl
  have hidden : ¬a.Shows 3 .cmp0054 5 := fun shows =>
    nomatch ((showsBelow falling bound fifth).mp shows).1
  exact ⟨falling, first, here 1 first, fourth, shows, (below 4 fourth).1 shows, fifth, hidden,
    (below 5 fifth).2 hidden⟩

end CMakeScript.PolicyFrames
