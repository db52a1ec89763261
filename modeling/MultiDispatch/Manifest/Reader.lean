import MultiDispatch.Manifest.Failure
import MultiDispatch.Manifest.Scan

/-!
# Readers

A reader takes a value off the front of a text and leaves the rest.  Beside what
it reads, it notes which rules failed on the way; a note changes the remembered
failures and never what is read.  Everything said about readers is said of
`read`, with what is left of the text as the only view of a place in it.
-/

namespace MultiDispatch.Manifest

/-- What is read from a text, with the note of the failures on the way. -/
structure Reader (α : Type) where
  run : List Char → Option (α × List Char) × (Failures → Failures)

namespace Reader

variable {α β : Type}

def read (reader : Reader α) (text : List Char) : Option (α × List Char) := (reader.run text).1

instance : Monad Reader where
  pure value := ⟨fun text => (some (value, text), id)⟩
  bind reader next := ⟨fun text =>
    match reader.run text with
    | (some (value, rest), noted) =>
        let (result, more) := (next value).run rest
        (result, more ∘ noted)
    | (none, noted) => (none, noted)⟩

@[simp]
theorem read_pure (value : α) (text : List Char) :
    (pure value : Reader α).read text = some (value, text) := rfl

@[simp]
theorem read_bind (reader : Reader α) (next : α → Reader β) (text : List Char) :
    (reader >>= next).read text =
      (reader.read text).bind fun (value, rest) => (next value).read rest := by
  simp only [read, bind]
  split <;> simp [*]

/-- Makes another value of the text, the value read from it and the rest. -/
def describe (description : List Char → α → List Char → β) (reader : Reader α) : Reader β :=
  ⟨fun text =>
    let (result, noted) := reader.run text
    (result.map fun (value, rest) => (description text value rest, rest), noted)⟩

@[simp]
theorem read_describe (description : List Char → α → List Char → β) (reader : Reader α)
    (text : List Char) :
    (describe description reader).read text =
      (reader.read text).map fun (value, rest) => (description text value rest, rest) := rfl

/-- Reads by a scan, which fails unreported. -/
def scan (scan : Scan) : Reader Unit := ⟨fun text => ((scan text).map fun rest => ((), rest), id)⟩

def exactly (text : String) : Reader Unit := scan (Scan.exactly text)

def gap : Reader Unit := scan fun text => some (skipGap false text)

def endOfInput : Reader Unit := scan fun text => if text = [] then some [] else none

/-- The text taken by a reader. -/
def taken : Reader α → Reader String :=
  describe fun text _ rest => String.ofList (text.take (text.length - rest.length))

/-- Where a piece of text lies, in bytes before the end of the whole text. -/
structure Extent where
  fromStart : Nat
  fromEnd : Nat
  deriving DecidableEq

def bytes (text : List Char) : Nat := (text.map Char.utf8Size).foldr (· + ·) 0

/-- The value read, with the place of the text taken for it. -/
def located : Reader α → Reader (α × Extent) :=
  describe fun text value rest => (value, ⟨bytes text, bytes rest⟩)

/-- Reports `rule` where the reader fails. -/
def named (rule : Rule) (reader : Reader α) : Reader α := ⟨fun text =>
  match reader.run text with
  | (some result, noted) => (some result, noted)
  | (none, noted) =>
      (none, fun failures =>
        let left := text.length
        (noted failures).record rule left (failures.countAt left))⟩

def optional (reader : Reader α) : Reader (Option α) := ⟨fun text =>
  match reader.run text with
  | (some (value, rest), noted) => (some (some value, rest), noted)
  | (none, noted) => (some (none, text), noted)⟩

def runMany (reader : Reader α) (text : List Char) :
    (List α × List Char) × (Failures → Failures) :=
  match reader.run text with
  | (some (value, rest), noted) =>
      if rest.length < text.length then
        let ((values, rest), more) := runMany reader rest
        ((value :: values, rest), more ∘ noted)
      else (([], text), noted)
  | (none, noted) => (([], text), noted)
termination_by text.length

/-- As many values as can be read one after the other. -/
def many (reader : Reader α) : Reader (List α) := ⟨fun text =>
  let (result, noted) := runMany reader text
  (some result, noted)⟩

@[simp]
theorem read_named (rule : Rule) (reader : Reader α) : (named rule reader).read = reader.read := by
  funext text
  simp only [read, named]
  split <;> simp [*]

theorem read_optional_isSome (reader : Reader α) (text : List Char) :
    (reader.optional.read text).isSome := by
  simp only [read, optional]
  split <;> rfl

theorem read_many_of_none {reader : Reader α} {text : List Char}
    (fails : reader.read text = none) : reader.many.read text = some ([], text) := by
  simp only [read, many] at fails ⊢
  rw [runMany]
  split
  · simp_all
  · rfl

theorem read_many_of_some {reader : Reader α} {text rest last : List Char} {value : α}
    {values : List α} (reads : reader.read text = some (value, rest))
    (shorter : rest.length < text.length) (more : reader.many.read rest = some (values, last)) :
    reader.many.read text = some (value :: values, last) := by
  simp only [read, many, Option.some.injEq] at reads more ⊢
  rw [runMany]
  split
  · rename_i found
    rw [found] at reads
    cases reads
    simp [shorter, more]
  · simp_all

end Reader

end MultiDispatch.Manifest
