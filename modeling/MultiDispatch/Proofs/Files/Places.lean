import Mathlib.Data.List.Infix
import MultiDispatch.Files
import MultiDispatch.Proofs.Pointwise

/-!
# Places of written paths

A path leads from one place to the next, part by part, so the directories above it
as it is written lie one step of the tree apart.  The search for a file visits their
places; whatever the way passes through before it reaches a place above where it
began, it does not leave the tree below that place.
-/

namespace MultiDispatch

namespace Path

theorem trimParts_suffix (parts : List String) : trimParts parts <:+ parts := by
  fun_induction trimParts parts with
  | case1 => exact List.suffix_refl _
  | case2 => exact List.nil_suffix
  | case3 => exact List.suffix_refl _
  | case4 part earlier _ _ inductionHypothesis =>
      exact inductionHypothesis.trans (List.suffix_cons part earlier)
  | case5 => exact List.suffix_refl _

theorem mem_parts_of_mem_significant {path : Path} {part : String}
    (counts : part ∈ path.significant) : part ∈ path.parts :=
  List.mem_reverse.mp ((trimParts_suffix _).subset counts)

theorem parent?_eq_none_iff {path : Path} : path.parent? = none ↔ path.significant = [] := by
  rw [parent?]
  split <;> simp_all

theorem parent?_eq_some_iff {path parent : Path} :
    path.parent? = some parent ↔ ∃ last earlier, path.significant = last :: earlier ∧
      directory path.IsRooted (trimParts earlier) = parent := by
  rw [parent?]
  split <;> simp_all

theorem ancestors_of_parent?_eq_none {path : Path} (top : path.parent? = none) :
    path.ancestors = [] := by
  rw [ancestors]
  split
  · rfl
  · simp_all

theorem ancestors_of_parent? {path parent : Path} (isParent : path.parent? = some parent) :
    path.ancestors = parent :: parent.ancestors := by
  rw [ancestors]
  split
  · simp_all
  · simp_all

/-- What is cut from a path leaves its beginning. -/
theorem head?_reverse_of_suffix {kept parts : List String} (nonempty : kept ≠ [])
    (isSuffix : kept <:+ parts.reverse) : kept.reverse.head? = parts.head? := by
  obtain ⟨dropped, whole⟩ := isSuffix
  rw [← List.reverse_reverse parts, ← whole, List.reverse_append]
  exact (List.head?_append_of_ne_nil _ (by simpa using nonempty)).symm

theorem isRooted_parent_iff {path parent : Path} (isParent : path.parent? = some parent) :
    parent.IsRooted ↔ path.IsRooted := by
  obtain ⟨last, earlier, counts, rfl⟩ := parent?_eq_some_iff.mp isParent
  have named : path.parts ≠ [""] := by
    intro blank
    rw [significant, blank] at counts
    cases counts
  unfold directory
  split
  · by_cases rooted : path.IsRooted
    · simp only [rooted, decide_true, if_true, iff_true]
      decide
    · simp only [rooted, decide_false, iff_false]
      decide
  · rename_i part rest kept
    have isSuffix : part :: rest <:+ path.parts.reverse := by
      rw [← kept]
      apply (trimParts_suffix earlier).trans
      apply (List.suffix_cons last earlier).trans
      rw [← counts]
      exact trimParts_suffix _
    have notBlank : (part :: rest).reverse ≠ [""] := by
      intro blank
      have blankKept : part :: rest = [""] := by simpa using congrArg List.reverse blank
      have again := trimParts_trimParts earlier
      rw [kept, blankKept] at again
      cases again
    rw [IsRooted, IsRooted, head?_reverse_of_suffix (List.cons_ne_nil _ _) isSuffix]
    simp only [named, notBlank, ne_eq, not_false_iff]

end Path

/-- Whether a part of a path goes down into what has its name. -/
def IsName (part : String) : Prop := part ≠ "" ∧ part ≠ "." ∧ part ≠ ".."

instance : DecidablePred IsName := fun _ => inferInstanceAs (Decidable (_ ∧ _))

namespace Snapshot

variable {snapshot : Snapshot} {place next other : List String} {part name : String}
  {path parent : Path}

theorem IsDirectory.of_prefix (isDirectory : snapshot.IsDirectory place) (above : other <+: place) :
    snapshot.IsDirectory other := by
  rcases isDirectory with toWork | ⟨file, inside, toFile, differs⟩
  · exact .inl (above.trans toWork)
  · refine .inr ⟨file, inside, above.trans toFile, ?_⟩
    rintro rfl
    exact differs (toFile.eq_of_length_le above.length_le)

/-- The place to which a part leads.  Only what is gone back from has to be there. -/
def follow (snapshot : Snapshot) (place : List String) (part : String) : Option (List String) :=
  if part = "" ∨ part = "." then some place
  else if part = ".." then if snapshot.IsDirectory place then some place.dropLast else none
  else some (place ++ [part])

theorem follow_of_isName (isName : IsName part) :
    snapshot.follow place part = some (place ++ [part]) := by
  simp [follow, isName.1, isName.2.1, isName.2.2]

theorem follow_eq_some_iff :
    snapshot.follow place part = some next ↔
      (part = "" ∨ part = ".") ∧ place = next ∨
        (part = ".." ∧ snapshot.IsDirectory place) ∧ place.dropLast = next ∨
        IsName part ∧ place ++ [part] = next := by
  rw [follow]
  split
  · rename_i still
    rcases still with rfl | rfl <;> simp [IsName]
  · split
    · rename_i back
      subst back
      split <;> simp_all [IsName]
    · simp_all [IsName]

theorem step_eq_ok_iff :
    snapshot.step place part = .ok next ↔
      snapshot.IsDirectory place ∧ snapshot.follow place part = some next := by
  unfold step
  split
  · rename_i isDirectory
    rw [Except.ok.injEq, and_iff_right isDirectory, follow_eq_some_iff]
    split <;> simp_all [IsName]
  · rename_i noDirectory
    simp [noDirectory]

theorem isDirectory_of_follow (follows : snapshot.follow place part = some next)
    (isDirectory : snapshot.IsDirectory next) : snapshot.IsDirectory place := by
  rcases follow_eq_some_iff.mp follows with ⟨_, rfl⟩ | ⟨⟨_, back⟩, _⟩ | ⟨_, rfl⟩
  · exact isDirectory
  · exact back
  · exact isDirectory.of_prefix (List.prefix_append _ _)

theorem isDirectory_of_foldlM_follow {parts : List String}
    (leads : parts.foldlM snapshot.follow place = some next)
    (isDirectory : snapshot.IsDirectory next) : snapshot.IsDirectory place := by
  induction parts generalizing place with
  | nil =>
      cases leads
      exact isDirectory
  | cons part rest inductionHypothesis =>
      rw [List.foldlM_cons, Option.bind_eq_bind, Option.bind_eq_some_iff] at leads
      obtain ⟨between, follows, leads⟩ := leads
      exact isDirectory_of_follow follows (inductionHypothesis leads)

/-- Where a way ends in a directory, it has led through directories. -/
theorem foldlM_step_eq_ok_iff {parts : List String} (isDirectory : snapshot.IsDirectory next) :
    parts.foldlM snapshot.step place = .ok next ↔
      parts.foldlM snapshot.follow place = some next := by
  induction parts generalizing place with
  | nil => simp [pure, Except.pure]
  | cons part rest inductionHypothesis =>
      rw [List.foldlM_cons, List.foldlM_cons, Except.bind_eq_ok_iff, Option.bind_eq_bind,
        Option.bind_eq_some_iff]
      simp only [inductionHypothesis, step_eq_ok_iff]
      constructor
      · intro stepped
        obtain ⟨between, ⟨_, follows⟩, leads⟩ := stepped
        exact ⟨between, follows, leads⟩
      · intro followed
        obtain ⟨between, follows, leads⟩ := followed
        have through := isDirectory_of_foldlM_follow leads isDirectory
        exact ⟨between, ⟨isDirectory_of_follow follows through, follows⟩, leads⟩

/-- Where a path begins. -/
def start (snapshot : Snapshot) (path : Path) : List String :=
  if path.IsRooted then [] else snapshot.workingDirectory

/-- The place that a path stands for, unless it goes back from where nothing is. -/
def placeOf? (snapshot : Snapshot) (path : Path) : Option (List String) :=
  path.parts.foldlM snapshot.follow (snapshot.start path)

theorem foldlM_follow_trimParts (parts : List String) :
    (Path.trimParts parts).reverse.foldlM snapshot.follow place =
      parts.reverse.foldlM snapshot.follow place := by
  fun_induction Path.trimParts parts with
  | case1 => rfl
  | case2 => rfl
  | case3 => rfl
  | case4 part earlier _ still inductionHypothesis =>
      rw [inductionHypothesis, List.reverse_cons, List.foldlM_append]
      simp only [List.foldlM_cons, List.foldlM_nil, follow, if_pos still, Option.bind_eq_bind,
        Option.pure_def, Option.bind_fun_some]
  | case5 => rfl

theorem placeOf?_eq_foldlM_significant (path : Path) :
    snapshot.placeOf? path =
      path.significant.reverse.foldlM snapshot.follow (snapshot.start path) := by
  rw [Path.significant, foldlM_follow_trimParts, List.reverse_reverse]
  rfl

theorem start_parent (isParent : path.parent? = some parent) :
    snapshot.start parent = snapshot.start path := by
  simp only [start, Path.isRooted_parent_iff isParent]

theorem placeOf?_of_top (top : path.parent? = none) :
    snapshot.placeOf? path = some (snapshot.start path) := by
  rw [placeOf?_eq_foldlM_significant, Path.parent?_eq_none_iff.mp top]
  rfl

/-- What is above the place that a part leads to, except this place itself, is above the
place that the part leads from. -/
theorem prefix_of_follow {above : List String} (follows : snapshot.follow place part = some next)
    (isAbove : above <+: next) (differs : next ≠ above) : above <+: place := by
  rcases follow_eq_some_iff.mp follows with ⟨_, rfl⟩ | ⟨_, rfl⟩ | ⟨_, rfl⟩
  · exact isAbove
  · exact isAbove.trans (List.dropLast_prefix place)
  · rcases List.prefix_concat_iff.mp isAbove with same | earlier
    · exact absurd same.symm differs
    · exact earlier

/-- The last part of a path leads to its place from that of its parent. -/
theorem exists_placeOf?_parent (isParent : path.parent? = some parent)
    (begins : snapshot.placeOf? path = some place) :
    ∃ between last, last ∈ path.parts ∧ snapshot.placeOf? parent = some between ∧
      snapshot.follow between last = some place := by
  have sameStart := snapshot.start_parent isParent
  obtain ⟨last, earlier, counts, rfl⟩ := Path.parent?_eq_some_iff.mp isParent
  have inside : last ∈ path.parts :=
    Path.mem_parts_of_mem_significant (counts ▸ List.mem_cons_self)
  rw [placeOf?_eq_foldlM_significant, counts, List.reverse_cons, List.foldlM_append,
    Option.bind_eq_bind, Option.bind_eq_some_iff] at begins
  obtain ⟨between, isBetween, follows⟩ := begins
  refine ⟨between, last, inside, ?_, ?_⟩
  · rw [placeOf?_eq_foldlM_significant, Path.significant_directory, foldlM_follow_trimParts,
      sameStart, isBetween]
  · simpa using follows

/-- The way up stays below a place above where it begins until it has come there. -/
theorem prefix_until_reached {above : List String} {later : Path} {before after : List Path}
    (whole : path :: path.ancestors = before ++ later :: after)
    (begins : snapshot.placeOf? path = some place) (isAbove : above <+: place)
    (notYet : ∀ earlier ∈ before, snapshot.placeOf? earlier ≠ some above) :
    ∃ reached, snapshot.placeOf? later = some reached ∧ above <+: reached := by
  induction path using Path.ancestors.induct generalizing before place with
  | case1 path top =>
      rw [Path.ancestors_of_parent?_eq_none top] at whole
      cases before with
      | nil =>
          cases whole
          exact ⟨place, begins, isAbove⟩
      | cons _ before => simp at whole
  | case2 path parent isParent _ inductionHypothesis =>
      cases before with
      | nil =>
          cases whole
          exact ⟨place, begins, isAbove⟩
      | cons first before =>
          rw [Path.ancestors_of_parent? isParent, List.cons_append] at whole
          obtain ⟨rfl, onward⟩ := List.cons.inj whole
          rw [List.forall_mem_cons] at notYet
          have differs : place ≠ above := by
            rintro rfl
            exact notYet.1 begins
          obtain ⟨between, last, _, isBetween, follows⟩ :=
            exists_placeOf?_parent isParent begins
          exact inductionHypothesis onward isBetween (prefix_of_follow follows isAbove differs)
            notYet.2

/-- The way up comes through every place from where it begins up to where the path is
read from. -/
theorem exists_reached_of_between {above : List String}
    (begins : snapshot.placeOf? path = some place) (isAbove : above <+: place)
    (belowStart : snapshot.start path <+: above) :
    ∃ reached ∈ path :: path.ancestors, snapshot.placeOf? reached = some above := by
  induction path using Path.ancestors.induct generalizing place with
  | case1 path top =>
      rw [placeOf?_of_top top] at begins
      cases begins
      have same := belowStart.eq_of_length_le isAbove.length_le
      exact ⟨path, List.mem_cons_self, same ▸ placeOf?_of_top top⟩
  | case2 path parent isParent _ inductionHypothesis =>
      by_cases here : place = above
      · exact ⟨path, List.mem_cons_self, here ▸ begins⟩
      · obtain ⟨between, last, _, isBetween, follows⟩ := exists_placeOf?_parent isParent begins
        rw [← snapshot.start_parent isParent] at belowStart
        obtain ⟨reached, inside, isReached⟩ :=
          inductionHypothesis isBetween (prefix_of_follow follows isAbove here) belowStart
        rw [Path.ancestors_of_parent? isParent]
        exact ⟨reached, List.mem_cons_of_mem _ inside, isReached⟩

section Forward

/-! Ways without a step back. -/

theorem exists_placeOf?_of_forward (forward : ".." ∉ path.parts) :
    ∃ place, snapshot.placeOf? path = some place := by
  have leads : ∀ (parts : List String) place, ".." ∉ parts →
      ∃ next, parts.foldlM snapshot.follow place = some next := by
    intro parts
    induction parts with
    | nil =>
        intro place _
        exact ⟨place, rfl⟩
    | cons part rest inductionHypothesis =>
        intro place forward
        rw [List.mem_cons, not_or] at forward
        have follows : ∃ between, snapshot.follow place part = some between := by
          simp only [follow, if_neg (Ne.symm forward.1)]
          split <;> simp
        obtain ⟨between, follows⟩ := follows
        rw [List.foldlM_cons, follows]
        exact inductionHypothesis between forward.2
  exact leads path.parts _ forward

theorem forward_parent (isParent : path.parent? = some parent) (forward : ".." ∉ path.parts) :
    ".." ∉ parent.parts := by
  obtain ⟨last, earlier, counts, rfl⟩ := Path.parent?_eq_some_iff.mp isParent
  unfold Path.directory
  split
  · split <;> simp
  · rename_i part rest kept
    rw [List.mem_reverse, ← kept]
    intro back
    apply forward
    apply Path.mem_parts_of_mem_significant
    rw [counts]
    exact List.mem_cons_of_mem _ ((Path.trimParts_suffix _).subset back)

theorem prefix_of_follow_of_ne_back (follows : snapshot.follow place part = some next)
    (onward : part ≠ "..") : place <+: next := by
  rcases follow_eq_some_iff.mp follows with ⟨_, rfl⟩ | ⟨⟨back, _⟩, _⟩ | ⟨_, rfl⟩
  · exact List.prefix_refl _
  · exact absurd back onward
  · exact List.prefix_append _ _

/-- A way up without a step back comes only through places between where it begins and
where the path is read from. -/
theorem between_of_reached (forward : ".." ∉ path.parts)
    (begins : snapshot.placeOf? path = some place) {reached : Path}
    (inside : reached ∈ path :: path.ancestors) :
    ∃ above, snapshot.placeOf? reached = some above ∧ snapshot.start path <+: above ∧
      above <+: place := by
  induction path using Path.ancestors.induct generalizing reached place with
  | case1 path top =>
      rw [Path.ancestors_of_parent?_eq_none top, List.mem_singleton] at inside
      subst inside
      rw [placeOf?_of_top top] at begins
      cases begins
      exact ⟨_, placeOf?_of_top top, List.prefix_refl _, List.prefix_refl _⟩
  | case2 path parent isParent _ inductionHypothesis =>
      obtain ⟨between, last, isLast, isBetween, follows⟩ :=
        exists_placeOf?_parent isParent begins
      have onward : last ≠ ".." := by
        rintro rfl
        exact forward isLast
      have isAbove := prefix_of_follow_of_ne_back follows onward
      have reachedAbove : ∀ {earlier}, earlier ∈ parent :: parent.ancestors →
          ∃ above, snapshot.placeOf? earlier = some above ∧ snapshot.start path <+: above ∧
            above <+: between := by
        rw [← snapshot.start_parent isParent]
        exact inductionHypothesis (forward_parent isParent forward) isBetween
      rw [Path.ancestors_of_parent? isParent, List.mem_cons] at inside
      rcases inside with rfl | inside
      · obtain ⟨above, isReached, belowStart, aboveBetween⟩ := reachedAbove List.mem_cons_self
        exact ⟨place, begins, belowStart.trans (aboveBetween.trans isAbove), List.prefix_refl _⟩
      · obtain ⟨above, isReached, belowStart, aboveBetween⟩ := reachedAbove inside
        exact ⟨above, isReached, belowStart, aboveBetween.trans isAbove⟩

end Forward

end Snapshot

/-- A name in a directory is written behind the parts of the directory, of which at most an
empty one is lost. -/
theorem Path.exists_parts_join (directory : Path) (name : String) :
    ∃ front, (directory.join name).parts = front ++ [name] ∧
      (directory.parts = front ++ [""] ∨
        directory.parts = front ∧ directory.parts.getLast? ≠ some "") := by
  unfold join
  split
  · rename_i slash
    exact ⟨_, rfl, .inl (List.dropLast_append_getLast? "" slash).symm⟩
  · rename_i noSlash
    exact ⟨_, rfl, .inr ⟨rfl, noSlash⟩⟩

theorem Path.isRooted_join_iff {directory : Path} {name : String} (isName : IsName name) :
    (directory.join name).IsRooted ↔ directory.IsRooted := by
  obtain ⟨front, joined, slash | ⟨noSlash, notBlank⟩⟩ := directory.exists_parts_join name
  · rw [IsRooted, IsRooted, joined, slash]
    cases front <;> simp [isName.1]
  · rw [noSlash] at notBlank
    rw [IsRooted, IsRooted, joined, noSlash]
    cases front with
    | nil => simp [isName.1]
    | cons first rest =>
        have several : first :: rest ≠ [""] := by
          intro blank
          rw [blank] at notBlank
          exact notBlank rfl
        simp [several]

namespace Snapshot

variable {snapshot : Snapshot} {place reached : List String} {name : String} {path : Path}

/-- The regular file `name` is in the directory. -/
def Holds (snapshot : Snapshot) (directory : List String) (name : String) : Prop :=
  (snapshot.contents.lookup (directory ++ [name])).isSome

instance (directory : List String) (name : String) : Decidable (snapshot.Holds directory name) :=
  inferInstanceAs (Decidable (_ = true))

theorem eq_of_resolve_eq_error {fault : FileError} (fails : snapshot.resolve path = .error fault) :
    fault = .notFound ∨ fault = .notDirectory := by
  unfold resolve at fails
  split at fails
  · cases fails
    exact .inl rfl
  · obtain ⟨_, part, _, reached, _, _, fails⟩ := List.foldlM_eq_error_iff.mp fails
    unfold step at fails
    split at fails
    · cases fails
    · split at fails
      · cases fails
        exact .inr rfl
      · cases fails
        exact .inl rfl

theorem contains_iff :
    snapshot.files.Contains path ↔
      ∃ place, snapshot.resolve path = .ok place ∧ (snapshot.contents.lookup place).isSome := by
  simp only [Files.Contains, files]
  cases resolved : snapshot.resolve path with
  | error fault =>
      rcases eq_of_resolve_eq_error resolved with rfl | rfl <;> simp [bind, Except.bind]
  | ok place =>
      simp only [bind, Except.bind, readPlace, Except.ok.injEq, exists_eq_left']
      cases snapshot.contents.lookup place with
      | some text => simp
      | none => by_cases isDirectory : snapshot.IsDirectory place <;> simp [isDirectory]

theorem isDirectory_of_holds (holds : snapshot.Holds place name) : snapshot.IsDirectory place := by
  obtain ⟨text, found⟩ := Option.isSome_iff_exists.mp holds
  obtain ⟨before, after, whole, _⟩ := List.lookup_eq_some_iff.mp found
  refine .inr ⟨(place ++ [name], text), ?_, List.prefix_append _ _, by simp⟩
  rw [whole]
  exact List.mem_append_right _ List.mem_cons_self

theorem resolve_join_eq_ok_iff (isName : IsName name) {directory : Path} :
    snapshot.resolve (directory.join name) = .ok reached ↔
      ∃ place, (snapshot.IsDirectory place ∧ snapshot.placeOf? directory = some place) ∧
        place ++ [name] = reached := by
  have sameStart : snapshot.start (directory.join name) = snapshot.start directory := by
    simp only [start, Path.isRooted_join_iff isName]
  obtain ⟨front, joined, parts⟩ := directory.exists_parts_join name
  have sameParts : front.foldlM snapshot.follow (snapshot.start directory) =
      snapshot.placeOf? directory := by
    rw [placeOf?]
    rcases parts with slash | ⟨noSlash, _⟩
    · rw [slash, List.foldlM_append]
      simp [follow]
    · rw [noSlash]
  have named : (directory.join name).parts ≠ [""] := by
    intro blank
    rw [joined] at blank
    exact isName.1 (List.append_singleton_inj.mp (blank.trans (List.nil_append [""]).symm)).2
  rw [resolve, if_neg named, ← start, sameStart, joined, List.foldlM_append,
    Except.bind_eq_ok_iff]
  apply exists_congr
  intro place
  simp only [List.foldlM_cons, List.foldlM_nil, bind_pure, step_eq_ok_iff,
    follow_of_isName isName, Option.some.injEq]
  rw [← and_assoc, and_comm (a := _ = _)]
  apply and_congr_left
  intro _
  apply and_congr_right
  intro isDirectory
  rw [foldlM_step_eq_ok_iff isDirectory, sameParts]

/-- The file is found under the written directory when the place of the directory holds it. -/
theorem contains_join_iff (isName : IsName name) {directory : Path} :
    snapshot.files.Contains (directory.join name) ↔
      ∃ place, snapshot.placeOf? directory = some place ∧ snapshot.Holds place name := by
  simp only [contains_iff, resolve_join_eq_ok_iff isName]
  constructor
  · intro found
    obtain ⟨_, ⟨place, ⟨_, isPlace⟩, rfl⟩, holds⟩ := found
    exact ⟨place, isPlace, holds⟩
  · intro found
    obtain ⟨place, isPlace, holds⟩ := found
    exact ⟨_, ⟨place, ⟨isDirectory_of_holds holds, isPlace⟩, rfl⟩, holds⟩

end Snapshot

end MultiDispatch
