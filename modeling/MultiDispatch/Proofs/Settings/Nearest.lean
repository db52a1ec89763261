import MultiDispatch.Proofs.Files.Places
import MultiDispatch.Settings

/-!
# The nearest settings file

A manifest should be compiled under the settings file of the closest directory above
it, and under the defaults when there is none up to the root.  The search goes by the
path as it is written.  It can be led into a directory that is not above the manifest,
where a path goes back; and it ends where the path begins, so that what is above the
working directory is not seen.  In no other way does it go wrong.
-/

namespace MultiDispatch

namespace Snapshot

/-- The directory that the manifest is in. -/
def directoryOf? (snapshot : Snapshot) (manifest : Path) : Option (List String) :=
  manifest.parent?.bind snapshot.placeOf?

/-- The directory that the manifest is in and all above it, up to the root. -/
def LiesAbove (snapshot : Snapshot) (directory : List String) (manifest : Path) : Prop :=
  ∃ own, snapshot.directoryOf? manifest = some own ∧ directory <+: own

theorem liesAbove_iff {snapshot : Snapshot} {manifest : Path} {directory : List String} :
    snapshot.LiesAbove directory manifest ↔
      ∃ parent own, manifest.parent? = some parent ∧ snapshot.placeOf? parent = some own ∧
        directory <+: own := by
  simp only [LiesAbove, directoryOf?, Option.bind_eq_some_iff]
  constructor
  · intro above
    obtain ⟨own, ⟨parent, isParent, isOwn⟩, isAbove⟩ := above
    exact ⟨parent, own, isParent, isOwn, isAbove⟩
  · intro above
    obtain ⟨parent, own, isParent, isOwn, isAbove⟩ := above
    exact ⟨own, ⟨parent, isParent, isOwn⟩, isAbove⟩

/-- Of the directories above the manifest that hold settings, the closest. -/
structure IsNearest (snapshot : Snapshot) (manifest : Path) (directory : List String) : Prop where
  above : snapshot.LiesAbove directory manifest
  holds : snapshot.Holds directory Settings.fileName
  closest : ∀ other, snapshot.LiesAbove other manifest →
    snapshot.Holds other Settings.fileName → other <+: directory

theorem IsNearest.unique {snapshot : Snapshot} {manifest : Path} {first second : List String}
    (isFirst : snapshot.IsNearest manifest first) (isSecond : snapshot.IsNearest manifest second) :
    first = second := by
  have below := isSecond.closest first isFirst.above isFirst.holds
  have above := isFirst.closest second isSecond.above isSecond.holds
  exact below.eq_of_length_le above.length_le

end Snapshot

namespace Settings

variable {snapshot : Snapshot} {manifest path written : Path} {directory place : List String}

/-- The file that is found is the nearest one, and none is found only where none is. -/
structure TakesNearest (snapshot : Snapshot) (manifest : Path) : Prop where
  nearest : ∀ path, find? snapshot.files manifest = some path →
    ∃ directory, snapshot.IsNearest manifest directory ∧
      snapshot.resolve path = .ok (directory ++ [fileName])
  defaults : find? snapshot.files manifest = none ↔
    ∀ directory, snapshot.LiesAbove directory manifest → ¬snapshot.Holds directory fileName

/-- The written directory has a settings file. -/
def Offers (snapshot : Snapshot) (written : Path) : Prop :=
  ∃ place, snapshot.placeOf? written = some place ∧ snapshot.Holds place fileName

/-- The ways in which the search goes wrong. -/
inductive IsMisled (snapshot : Snapshot) (manifest : Path) : Prop where
  /-- It stops in a directory that is not above the manifest. -/
  | stray {before after : List Path} {written : Path} {place : List String}
      (whole : manifest.ancestors = before ++ written :: after)
      (missed : ∀ earlier ∈ before, ¬Offers snapshot earlier)
      (isPlace : snapshot.placeOf? written = some place) (holds : snapshot.Holds place fileName)
      (astray : ¬snapshot.LiesAbove place manifest)
  /-- It ends before it comes to a directory that holds settings. -/
  | shortfall {directory : List String}
      (missed : ∀ written ∈ manifest.ancestors, ¬Offers snapshot written)
      (above : snapshot.LiesAbove directory manifest)
      (holds : snapshot.Holds directory fileName)

theorem isName_fileName : IsName fileName := by
  decide

instance (snapshot : Snapshot) (written : Path) : Decidable (Offers snapshot written) :=
  decidable_of_iff _ (Snapshot.contains_join_iff isName_fileName)

theorem find?_eq_some_iff :
    find? snapshot.files manifest = some path ↔
      ∃ before written after, manifest.ancestors = before ++ written :: after ∧
        (∀ earlier ∈ before, ¬Offers snapshot earlier) ∧ Offers snapshot written ∧
        written.join fileName = path := by
  rw [find?, candidates, List.find?_map, Option.map_eq_some_iff]
  simp only [List.find?_eq_some_iff_append, Function.comp_apply, Bool.not_eq_true',
    decide_eq_true_eq, decide_eq_false_iff_not, Snapshot.contains_join_iff isName_fileName]
  constructor
  · intro found
    obtain ⟨written, ⟨offers, before, after, whole, missed⟩, rfl⟩ := found
    exact ⟨before, written, after, whole, missed, offers, rfl⟩
  · intro found
    obtain ⟨before, written, after, whole, missed, offers, rfl⟩ := found
    exact ⟨written, ⟨offers, before, after, whole, missed⟩, rfl⟩

theorem find?_eq_none_iff :
    find? snapshot.files manifest = none ↔
      ∀ written ∈ manifest.ancestors, ¬Offers snapshot written := by
  rw [find?, candidates, List.find?_eq_none]
  simp only [List.forall_mem_map, decide_eq_true_eq,
    Snapshot.contains_join_iff isName_fileName]
  rfl

theorem resolve_join_of_holds (isPlace : snapshot.placeOf? written = some place)
    (holds : snapshot.Holds place fileName) :
    snapshot.resolve (written.join fileName) = .ok (place ++ [fileName]) :=
  (Snapshot.resolve_join_eq_ok_iff isName_fileName).mpr
    ⟨place, ⟨Snapshot.isDirectory_of_holds holds, isPlace⟩, rfl⟩

/-- The way up passes every directory above the manifest before it leaves what is below. -/
theorem isNearest_of_first {before after : List Path}
    (whole : manifest.ancestors = before ++ written :: after)
    (missed : ∀ earlier ∈ before, ¬Offers snapshot earlier)
    (isPlace : snapshot.placeOf? written = some place) (holds : snapshot.Holds place fileName)
    (above : snapshot.LiesAbove place manifest) : snapshot.IsNearest manifest place := by
  refine ⟨above, holds, ?_⟩
  intro other otherAbove otherHolds
  obtain ⟨parent, own, isParent, begins, isAbove⟩ := Snapshot.liesAbove_iff.mp otherAbove
  rw [Path.ancestors_of_parent? isParent] at whole
  have notYet : ∀ earlier ∈ before, snapshot.placeOf? earlier ≠ some other := by
    intro earlier inside isOther
    exact missed earlier inside ⟨other, isOther, otherHolds⟩
  obtain ⟨reached, isReached, below⟩ :=
    Snapshot.prefix_until_reached whole begins isAbove notYet
  rw [isPlace] at isReached
  cases isReached
  exact below

theorem takesNearest_iff : TakesNearest snapshot manifest ↔ ¬IsMisled snapshot manifest := by
  constructor
  · intro takesNearest misled
    cases misled with
    | stray whole missed isPlace holds astray =>
        have found := find?_eq_some_iff.mpr
          ⟨_, _, _, whole, missed, ⟨_, isPlace, holds⟩, rfl⟩
        obtain ⟨directory, isNearest, resolved⟩ := takesNearest.nearest _ found
        rw [resolve_join_of_holds isPlace holds, Except.ok.injEq,
          List.append_left_inj] at resolved
        subst resolved
        exact astray isNearest.above
    | shortfall missed above holds =>
        exact takesNearest.defaults.mp (find?_eq_none_iff.mpr missed) _ above holds
  · intro led
    have nearest : ∀ path, find? snapshot.files manifest = some path →
        ∃ directory, snapshot.IsNearest manifest directory ∧
          snapshot.resolve path = .ok (directory ++ [fileName]) := by
      intro path found
      obtain ⟨before, written, after, whole, missed, ⟨place, isPlace, holds⟩, rfl⟩ :=
        find?_eq_some_iff.mp found
      have above : snapshot.LiesAbove place manifest := by
        by_contra astray
        exact led (.stray whole missed isPlace holds astray)
      exact ⟨place, isNearest_of_first whole missed isPlace holds above,
        resolve_join_of_holds isPlace holds⟩
    refine ⟨nearest, ?_⟩
    constructor
    · intro nothing directory above holds
      exact led (.shortfall (find?_eq_none_iff.mp nothing) above holds)
    · intro bare
      rw [Option.eq_none_iff_forall_ne_some]
      intro path found
      obtain ⟨directory, isNearest, _⟩ := nearest path found
      exact bare directory isNearest.above isNearest.holds

theorem liesAbove_of_mem_ancestors (forward : ".." ∉ manifest.parts)
    (inside : written ∈ manifest.ancestors) (isPlace : snapshot.placeOf? written = some place) :
    snapshot.start manifest <+: place ∧ snapshot.LiesAbove place manifest := by
  cases isParent : manifest.parent? with
  | none =>
      rw [Path.ancestors_of_parent?_eq_none isParent] at inside
      cases inside
  | some parent =>
      rw [Path.ancestors_of_parent? isParent] at inside
      have parentForward := Snapshot.forward_parent isParent forward
      obtain ⟨own, begins⟩ := snapshot.exists_placeOf?_of_forward parentForward
      obtain ⟨reached, isReached, belowStart, isAbove⟩ :=
        Snapshot.between_of_reached parentForward begins inside
      obtain rfl : place = reached := Option.some.inj (isPlace.symm.trans isReached)
      rw [snapshot.start_parent isParent] at belowStart
      exact ⟨belowStart, Snapshot.liesAbove_iff.mpr ⟨parent, own, isParent, begins, isAbove⟩⟩

theorem exists_offers_of_liesAbove (above : snapshot.LiesAbove directory manifest)
    (belowStart : snapshot.start manifest <+: directory)
    (holds : snapshot.Holds directory fileName) :
    ∃ written ∈ manifest.ancestors, Offers snapshot written := by
  obtain ⟨parent, own, isParent, begins, isAbove⟩ := Snapshot.liesAbove_iff.mp above
  rw [← snapshot.start_parent isParent] at belowStart
  obtain ⟨written, inside, isPlace⟩ :=
    Snapshot.exists_reached_of_between begins isAbove belowStart
  rw [Path.ancestors_of_parent? isParent]
  exact ⟨written, inside, directory, isPlace, holds⟩

/-- Without a step back the search goes wrong where there are settings above the manifest
but none at or below where its path begins. -/
theorem isMisled_iff_of_forward (forward : ".." ∉ manifest.parts) :
    IsMisled snapshot manifest ↔
      (∃ directory, snapshot.LiesAbove directory manifest ∧
        snapshot.Holds directory fileName) ∧
      ∀ directory, snapshot.LiesAbove directory manifest → snapshot.Holds directory fileName →
        ¬snapshot.start manifest <+: directory := by
  constructor
  · intro misled
    cases misled with
    | stray whole _ isPlace _ astray =>
        have inside := whole ▸ List.mem_append_right _ List.mem_cons_self
        exact absurd (liesAbove_of_mem_ancestors forward inside isPlace).2 astray
    | shortfall missed above holds =>
        refine ⟨⟨_, above, holds⟩, ?_⟩
        intro directory above holds belowStart
        obtain ⟨written, inside, offers⟩ := exists_offers_of_liesAbove above belowStart holds
        exact missed written inside offers
  · intro beyond
    obtain ⟨⟨directory, above, holds⟩, notBelow⟩ := beyond
    refine .shortfall ?_ above holds
    intro written inside offers
    obtain ⟨place, isPlace, placeHolds⟩ := offers
    obtain ⟨belowStart, placeAbove⟩ := liesAbove_of_mem_ancestors forward inside isPlace
    exact notBelow place placeAbove placeHolds belowStart

/-- Every directory is at or below the root, where a rooted path begins. -/
theorem takesNearest_of_isRooted (forward : ".." ∉ manifest.parts) (rooted : manifest.IsRooted) :
    TakesNearest snapshot manifest := by
  rw [takesNearest_iff, isMisled_iff_of_forward forward]
  intro beyond
  obtain ⟨⟨directory, above, holds⟩, notBelow⟩ := beyond
  apply notBelow directory above holds
  rw [Snapshot.start, if_pos rooted]
  exact List.nil_prefix

/-- What the nearest file says is what a manifest is compiled under. -/
theorem forManifest_of_isNearest (read : Reader)
    (takesNearest : TakesNearest snapshot manifest)
    (isNearest : snapshot.IsNearest manifest directory) {text : String}
    (isText : snapshot.contents.lookup (directory ++ [fileName]) = some text) :
    ∃ path, snapshot.resolve path = .ok (directory ++ [fileName]) ∧
      forManifest read snapshot.files manifest none =
        (read text).elim (.error (.malformed path)) .ok := by
  cases found : find? snapshot.files manifest with
  | none => exact absurd isNearest.holds (takesNearest.defaults.mp found _ isNearest.above)
  | some path =>
      obtain ⟨taken, isTaken, resolved⟩ := takesNearest.nearest path found
      obtain rfl := isTaken.unique isNearest
      have holdsText : snapshot.files.read path = .ok text := by
        simp only [Snapshot.files, resolved, bind, Except.bind, Snapshot.readPlace, isText]
      refine ⟨path, resolved, ?_⟩
      rw [forManifest, found, Option.none_or]
      simp only [load, holdsText]
      cases read text <;> rfl

theorem forManifest_of_forall_not_holds (read : Reader)
    (takesNearest : TakesNearest snapshot manifest)
    (bare : ∀ directory, snapshot.LiesAbove directory manifest →
      ¬snapshot.Holds directory fileName) :
    forManifest read snapshot.files manifest none = .ok {} := by
  rw [forManifest, takesNearest.defaults.mpr bare]
  rfl

/-- The nearest settings file above a manifest is taken, or the defaults where there is
none, unless the search is misled.  Where the path has no step back it is misled only if
settings are above the manifest but none at or below where the path begins, and so never
if the path begins at the root.  Unless it is misled, the manifest is compiled under what
the nearest file says. -/
theorem nearest_settings_unless_misled (snapshot : Snapshot) (manifest : Path) :
    (TakesNearest snapshot manifest ↔ ¬IsMisled snapshot manifest) ∧
      (".." ∉ manifest.parts →
        (IsMisled snapshot manifest ↔
          (∃ directory, snapshot.LiesAbove directory manifest ∧
            snapshot.Holds directory fileName) ∧
          ∀ directory, snapshot.LiesAbove directory manifest →
            snapshot.Holds directory fileName → ¬snapshot.start manifest <+: directory) ∧
        (manifest.IsRooted → TakesNearest snapshot manifest)) ∧
      ∀ read : Reader, ¬IsMisled snapshot manifest →
        (∀ directory text, snapshot.IsNearest manifest directory →
          snapshot.contents.lookup (directory ++ [fileName]) = some text →
          ∃ path, snapshot.resolve path = .ok (directory ++ [fileName]) ∧
            forManifest read snapshot.files manifest none =
              (read text).elim (.error (.malformed path)) .ok) ∧
        ((∀ directory, snapshot.LiesAbove directory manifest →
            ¬snapshot.Holds directory fileName) →
          forManifest read snapshot.files manifest none = .ok {}) := by
  refine ⟨takesNearest_iff, ?_, ?_⟩
  · intro forward
    exact ⟨isMisled_iff_of_forward forward, takesNearest_of_isRooted forward⟩
  · intro read led
    have takesNearest := takesNearest_iff.mpr led
    constructor
    · intro directory text isNearest isText
      exact forManifest_of_isNearest read takesNearest isNearest isText
    · intro bare
      exact forManifest_of_forall_not_holds read takesNearest bare

/-- Both the plans and the directory above the working directory have settings. -/
theorem nearest_settings_unless_misled_plans :
    let snapshot : Snapshot := ⟨["home", "work"],
      [(["home", "send.toml"], "strategy = \"closure\""),
        (["home", "work", "plans", "send.toml"], "introspect_skipped = false"),
        (["home", "work", "plans", "old", "m"], "")]⟩
    let read : Reader := fun text =>
      match text with
      | "introspect_skipped = false" => some { introspectSkipped := some false }
      | "strategy = \"closure\"" => some { strategy := some "closure" }
      | _ => none
    let manifest : Path := ⟨["plans", "old", "m"]⟩
    ¬IsMisled snapshot manifest ∧ TakesNearest snapshot manifest ∧
      forManifest read snapshot.files manifest none = .ok { introspectSkipped := some false } := by
  intro snapshot read manifest
  obtain ⟨exactly, forwardly, loads⟩ := nearest_settings_unless_misled snapshot manifest
  have forward : ".." ∉ manifest.parts := by decide
  have isOwn : snapshot.directoryOf? manifest = some ["home", "work", "plans", "old"] := rfl
  have above : snapshot.LiesAbove ["home", "work", "plans"] manifest :=
    ⟨_, isOwn, by decide⟩
  have holds : snapshot.Holds ["home", "work", "plans"] fileName := by decide
  have led : ¬IsMisled snapshot manifest := by
    rw [(forwardly forward).1]
    intro beyond
    exact beyond.2 _ above holds (by decide)
  have isNearest : snapshot.IsNearest manifest ["home", "work", "plans"] := by
    refine ⟨above, holds, ?_⟩
    intro other otherAbove otherHolds
    obtain ⟨own, sameOwn, isAbove⟩ := otherAbove
    rw [isOwn, Option.some.injEq] at sameOwn
    subst sameOwn
    have among : ∀ other ∈ ["home", "work", "plans", "old"].inits,
        snapshot.Holds other fileName → other <+: ["home", "work", "plans"] := by decide
    exact among other ((List.mem_inits _ _).mpr isAbove) otherHolds
  obtain ⟨_, _, loaded⟩ := (loads read led).1 _ _ isNearest rfl
  exact ⟨led, exactly.mpr led, loaded.trans rfl⟩

/-- A relative path does not show the settings above the working directory, and one that
goes back leads into a directory beside the manifest. -/
theorem nearest_settings_missed :
    ¬TakesNearest ⟨["home", "work"],
        [(["home", "send.toml"], "strategy = \"closure\""), (["home", "work", "m"], "")]⟩
        ⟨["m"]⟩ ∧
      ¬TakesNearest ⟨["work"],
        [(["work", "m"], ""), (["work", "sub", "send.toml"], "strategy = \"closure\"")]⟩
        ⟨["sub", "..", "m"]⟩ := by
  rw [takesNearest_iff, takesNearest_iff, not_not, not_not]
  constructor
  · refine .shortfall ?_ ⟨["home", "work"], rfl, List.prefix_append ["home"] _⟩ (by decide)
    rw [Path.ancestors_of_parent? rfl, Path.ancestors_of_parent?_eq_none rfl]
    decide
  · have whole : Path.ancestors ⟨["sub", "..", "m"]⟩ =
        [⟨["sub", ".."]⟩] ++ ⟨["sub"]⟩ :: [⟨[""]⟩] := by
      rw [Path.ancestors_of_parent? rfl, Path.ancestors_of_parent? rfl,
        Path.ancestors_of_parent? rfl, Path.ancestors_of_parent?_eq_none rfl]
      rfl
    refine .stray whole (by decide) rfl (by decide) ?_
    intro above
    obtain ⟨own, isOwn, isAbove⟩ := above
    obtain rfl : ["work"] = own := Option.some.inj isOwn
    exact absurd isAbove (by decide)

end Settings

end MultiDispatch
