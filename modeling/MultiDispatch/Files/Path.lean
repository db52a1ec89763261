/-!
# Paths

A path is kept as it is written, as its parts between slashes, so that it is
shown as it was given.  A part that is empty or a single dot changes nothing; only
a leading dot is kept when a path is shortened.
-/

namespace MultiDispatch

structure Path where
  parts : List String
  deriving DecidableEq

namespace Path

def ofText (text : String) : Path := ⟨text.splitOn "/"⟩

def text (path : Path) : String := "/".intercalate path.parts

/-- The path begins at the root instead of the working directory. -/
def IsRooted (path : Path) : Prop := path.parts.head? = some "" ∧ path.parts ≠ [""]

instance (path : Path) : Decidable path.IsRooted := by
  unfold IsRooted
  infer_instance

/-- The name `name` in the directory `directory`. -/
def join (directory : Path) (name : String) : Path :=
  if directory.parts.getLast? = some "" then ⟨directory.parts.dropLast ++ [name]⟩
  else ⟨directory.parts ++ [name]⟩

/-- Removes the parts that change nothing from the end of a path, whose parts are
given from last to first. -/
def trimParts : List String → List String
  | [] => []
  | [first] => if first = "" then [] else [first]
  | part :: earlier => if part = "" ∨ part = "." then trimParts earlier else part :: earlier

theorem length_trimParts_le (parts : List String) : (trimParts parts).length ≤ parts.length := by
  fun_induction trimParts parts with
  | case1 => exact Nat.le_refl _
  | case2 => exact Nat.zero_le _
  | case3 => exact Nat.le_refl _
  | case4 _ _ _ _ inductionHypothesis => exact Nat.le_succ_of_le inductionHypothesis
  | case5 => exact Nat.le_refl _

@[simp]
theorem trimParts_trimParts (parts : List String) :
    trimParts (trimParts parts) = trimParts parts := by
  fun_induction trimParts parts with
  | case1 => rfl
  | case2 => rfl
  | case3 first counts => simp [trimParts, counts]
  | case4 _ _ _ _ inductionHypothesis => exact inductionHypothesis
  | case5 part earlier isLast counts =>
      cases earlier with
      | nil => exact (isLast rfl).elim
      | cons _ _ => simp [trimParts, counts]

/-- The parts of a path that count, from last to first. -/
def significant (path : Path) : List String := trimParts path.parts.reverse

/-- The path of the directory that has these parts, from last to first. -/
def directory (rooted : Bool) : List String → Path
  | [] => if rooted then ⟨["", ""]⟩ else ⟨[""]⟩
  | part :: earlier => ⟨(part :: earlier).reverse⟩

/-- The directory that the path names something in; neither the root nor the
empty path names anything in a directory. -/
def parent? (path : Path) : Option Path :=
  match path.significant with
  | [] => none
  | _ :: earlier => some (directory path.IsRooted (trimParts earlier))

theorem significant_directory (rooted : Bool) (parts : List String) :
    (directory rooted (trimParts parts)).significant = trimParts parts := by
  unfold directory
  split
  · rename_i nothing
    cases rooted <;> simp [significant, trimParts, nothing]
  · rename_i kept
    simp only [significant, List.reverse_reverse, ← kept, trimParts_trimParts]

theorem length_significant_of_parent? {path parent : Path} (isParent : path.parent? = some parent) :
    parent.significant.length < path.significant.length := by
  unfold parent? at isParent
  split at isParent
  · cases isParent
  · rename_i _ earlier counts
    cases isParent
    rw [significant_directory, counts, List.length_cons]
    exact Nat.lt_succ_of_le (length_trimParts_le earlier)

/-- The directories above the path, as far as it is written, from the nearest
on. -/
def ancestors (path : Path) : List Path :=
  match isParent : path.parent? with
  | none => []
  | some parent =>
      have := length_significant_of_parent? isParent
      parent :: parent.ancestors
termination_by path.significant.length

end Path

end MultiDispatch
