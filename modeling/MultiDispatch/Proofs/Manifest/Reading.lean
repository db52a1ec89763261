import Mathlib.Data.List.Basic
import MultiDispatch.Manifest.Reader

/-!
# What readers read

Every combinator in terms of what is read and what is left, and the rules for
what holds of anything that a reader reads: a condition on the text before, the
value and the text left, which is proved along the reader.
-/

namespace MultiDispatch.Manifest.Reader

variable {α β : Type} {reader : Reader α} {text rest : List Char}

@[simp]
theorem read_scan (scan : Scan) (text : List Char) :
    (Reader.scan scan).read text = (scan text).map fun rest => ((), rest) := rfl

@[simp]
theorem read_exactly (token : String) (text : List Char) :
    (exactly token).read text = (Scan.exactly token text).map fun rest => ((), rest) := rfl

@[simp]
theorem read_gap (text : List Char) : gap.read text = some ((), skipGap false text) := rfl

@[simp]
theorem read_taken (reader : Reader α) (text : List Char) :
    (taken reader).read text = (reader.read text).map fun (_, rest) =>
      (String.ofList (text.take (text.length - rest.length)), rest) := rfl

theorem read_taken_scan {scan : Scan} {token : List Char}
    (found : scan (token ++ rest) = some rest) :
    (taken (.scan scan)).read (token ++ rest) = some (String.ofList token, rest) := by
  simp [found]

@[simp]
theorem read_located (reader : Reader α) (text : List Char) :
    (located reader).read text = (reader.read text).map fun (value, rest) =>
      ((value, ⟨bytes text, bytes rest⟩), rest) := rfl

theorem read_located_of_some {value : α} (reads : reader.read text = some (value, rest)) :
    (located reader).read text = some ((value, ⟨bytes text, bytes rest⟩), rest) := by
  rw [read_located, reads]
  rfl

@[simp]
theorem read_seqLeft (reader : Reader α) (next : Reader β) (text : List Char) :
    (reader <* next).read text = (reader.read text).bind fun (value, rest) =>
      (next.read rest).map fun (_, last) => (value, last) := by
  change (reader >>= fun value => next >>= fun _ => pure value).read text = _
  simp only [read_bind, read_pure]
  congr
  funext ⟨value, rest⟩
  cases next.read rest <;> rfl

theorem read_bind_of_some {next : α → Reader β} {value : α}
    (reads : reader.read text = some (value, rest)) :
    (reader >>= next).read text = (next value).read rest := by
  rw [read_bind, reads]
  rfl

theorem read_bind_of_none {next : α → Reader β} (fails : reader.read text = none) :
    (reader >>= next).read text = none := by
  rw [read_bind, fails]
  rfl

theorem read_bind_eq_some_iff {next : α → Reader β} {result : β × List Char} :
    (reader >>= next).read text = some result ↔
      ∃ value middle, reader.read text = some (value, middle) ∧
        (next value).read middle = some result := by
  rw [read_bind, Option.bind_eq_some_iff, Prod.exists]

theorem read_seqLeft_eq_some_iff {next : Reader β} {value : α} :
    (reader <* next).read text = some (value, rest) ↔
      ∃ middle other, reader.read text = some (value, middle) ∧
        next.read middle = some (other, rest) := by
  rw [read_seqLeft, Option.bind_eq_some_iff]
  constructor
  · rintro ⟨⟨_, middle⟩, reads, found⟩
    obtain ⟨⟨other, _⟩, readsNext, same⟩ := Option.map_eq_some_iff.mp found
    cases same
    exact ⟨middle, other, reads, readsNext⟩
  · rintro ⟨middle, other, reads, readsNext⟩
    exact ⟨(value, middle), reads, Option.map_eq_some_iff.mpr ⟨_, readsNext, rfl⟩⟩

theorem read_optional_of_some {value : α} (reads : reader.read text = some (value, rest)) :
    reader.optional.read text = some (some value, rest) := by
  simp only [read, optional] at reads ⊢
  split <;> simp_all

theorem read_optional_of_none (fails : reader.read text = none) :
    reader.optional.read text = some (none, text) := by
  simp only [read, optional] at fails ⊢
  split <;> simp_all

theorem read_optional_named (rule : Rule) (reader : Reader α) :
    (named rule reader).optional.read = reader.optional.read := by
  funext text
  cases found : reader.read text with
  | none =>
      rw [read_optional_of_none found, read_optional_of_none (by rw [read_named, found])]
  | some result =>
      rw [read_optional_of_some found, read_optional_of_some (by rw [read_named, found])]

theorem read_many (reader : Reader α) (text : List Char) :
    reader.many.read text =
      match reader.read text with
      | some (value, rest) =>
          if rest.length < text.length then
            (reader.many.read rest).map fun (values, last) => (value :: values, last)
          else some ([], text)
      | none => some ([], text) := by
  cases reads : reader.read text with
  | none => exact read_many_of_none reads
  | some result =>
      obtain ⟨value, rest⟩ := result
      simp only [read, many] at reads ⊢
      rw [runMany]
      split
      · rename_i found
        rw [found] at reads
        cases reads
        dsimp only
        split <;> rfl
      · simp_all

/-- Whatever the reader reads, the condition holds of the text before, the value
and the text left. -/
def Ensures (reader : Reader α) (post : List Char → α → List Char → Prop) : Prop :=
  ∀ ⦃text value rest⦄, reader.read text = some (value, rest) → post text value rest

namespace Ensures

variable {post : List Char → α → List Char → Prop}

theorem named {rule : Rule} (ensures : reader.Ensures post) :
    (Reader.named rule reader).Ensures post := by
  intro text value rest reads
  rw [read_named] at reads
  exact ensures reads

theorem optional (ensures : reader.Ensures post) :
    reader.optional.Ensures fun text result rest =>
      result = none ∧ rest = text ∨ ∃ value, result = some value ∧ post text value rest := by
  intro text result rest reads
  cases found : reader.read text with
  | none =>
      rw [read_optional_of_none found] at reads
      cases reads
      exact .inl ⟨rfl, rfl⟩
  | some first =>
      rw [read_optional_of_some found] at reads
      cases reads
      exact .inr ⟨first.1, rfl, ensures found⟩

/-- A condition that holds where nothing is read, and of one more value in front. -/
theorem many {posts : List Char → List α → List Char → Prop} (ensures : reader.Ensures post)
    (nil : ∀ text, posts text [] text)
    (cons : ∀ ⦃text value middle values rest⦄, post text value middle → posts middle values rest →
      posts text (value :: values) rest) :
    reader.many.Ensures posts := by
  intro text
  induction size : text.length using Nat.strongRecOn generalizing text with
  | ind size inductionHypothesis =>
      intro values rest reads
      rw [read_many] at reads
      split at reads
      · rename_i value middle found
        split at reads
        · rename_i shorter
          obtain ⟨⟨more, last⟩, readsMore, same⟩ := Option.map_eq_some_iff.mp reads
          cases same
          exact cons (ensures found) (inductionHypothesis _ (size ▸ shorter) rfl readsMore)
        · cases reads
          exact nil text
      · cases reads
        exact nil text

end Ensures

/-- The values are read one behind the other. -/
inductive Runs (reader : Reader α) : List Char → List α → List Char → Prop where
  | nil (text : List Char) : Runs reader text [] text
  | cons {text middle rest : List Char} {value : α} {values : List α}
      (reads : reader.read text = some (value, middle)) (more : Runs reader middle values rest) :
      Runs reader text (value :: values) rest

theorem runs_of_read_many {values : List α} (reads : reader.many.read text = some (values, rest)) :
    Runs reader text values rest := by
  have each : reader.Ensures fun text value rest => reader.read text = some (value, rest) :=
    fun _ _ _ reads => reads
  exact each.many Runs.nil (fun _ _ _ _ _ => Runs.cons) reads

theorem Runs.exists_read {before behind : List α} {value : α}
    (runs : Runs reader text (before ++ value :: behind) rest) :
    ∃ inner left, Runs reader text before inner ∧ reader.read inner = some (value, left) ∧
      Runs reader left behind rest := by
  induction before generalizing text with
  | nil =>
      cases runs with
      | cons reads more => exact ⟨text, _, .nil text, reads, more⟩
  | cons first before inductionHypothesis =>
      cases runs with
      | cons reads more =>
          rcases inductionHypothesis more with ⟨inner, left, runsBefore, readsValue, runsBehind⟩
          exact ⟨inner, left, .cons reads runsBefore, readsValue, runsBehind⟩

end MultiDispatch.Manifest.Reader
