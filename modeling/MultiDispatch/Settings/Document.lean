import MultiDispatch.Settings
import MultiDispatch.Text.Digits

/-!
# Settings documents

A flat TOML document binds keys to strings, booleans and integers, one binding a
line.  Tables, arrays, floats and dates are refused with the malformed
documents, since no setting can hold them.  This is the reader of settings files
that the program runs with; nothing that is proved of settings depends on it.
-/

namespace MultiDispatch.Settings

inductive Content where
  | text (text : String)
  | flag (flag : Bool)
  | integer (value : Int)
  deriving DecidableEq

structure Binding where
  key : String
  content : Content
  deriving DecidableEq

namespace Document

/-- What one item of a text yields, and the rest of the text. -/
abbrev Item (α : Type) := List Char → Option (List α × List Char)

/-- At most `limit` items, with everything that they yield. -/
def manyWithin {α : Type} (item : Item α) : Nat → List Char → List α × List Char
  | 0, text => ([], text)
  | limit + 1, text =>
      match item text with
      | some (yielded, rest) =>
          let (more, rest) := manyWithin item limit rest
          (yielded ++ more, rest)
      | none => ([], text)

/-- As many items as there are, which are no more than the characters. -/
def many {α : Type} (item : Item α) (text : List Char) : List α × List Char :=
  manyWithin item text.length text

/-- Stands for itself in quotes and comments, if nothing else is said. -/
def isPlain (character : Char) : Bool :=
  character = '\t' || (' ' ≤ character && character ≠ '\x7f')

def skipBlanks (text : List Char) : List Char :=
  text.dropWhile fun character => character = ' ' || character = '\t'

def lineEnd? : List Char → Option (List Char)
  | '\n' :: rest | '\r' :: '\n' :: rest => some rest
  | _ => none

/-- Skips blanks and line ends. -/
def skipLines : List Char → List Char
  | ' ' :: rest | '\t' :: rest | '\n' :: rest | '\r' :: '\n' :: rest => skipLines rest
  | text => text

/-! Digits and integers. -/

/-- Digits; one underscore may stand between any two of them. -/
def digits? (base : Nat) : Item Nat
  | [] => none
  | first :: '_' :: rest => do
      let digit ← Text.digit? base first
      let (digits, rest) ← digits? base rest
      return (digit :: digits, rest)
  | first :: rest => do
      let digit ← Text.digit? base first
      match digits? base rest with
      | some (digits, rest) => return (digit :: digits, rest)
      | none => return ([digit], rest)

/-- A decimal number has no leading zeros. -/
def decimal? (text : List Char) : Option (Nat × List Char) := do
  let (digits, rest) ← digits? 10 text
  if digits.head? = some 0 ∧ 1 < digits.length then none
  else some (Text.ofDigits 10 digits, rest)

def integer? (text : List Char) : Option (Int × List Char) :=
  let inBase (base : Nat) (text : List Char) : Option (Int × List Char) :=
    (digits? base text).map fun (digits, rest) => (Text.ofDigits base digits, rest)
  match text with
  | '0' :: 'x' :: rest => inBase 16 rest
  | '0' :: 'o' :: rest => inBase 8 rest
  | '0' :: 'b' :: rest => inBase 2 rest
  | '-' :: rest => (decimal? rest).map fun (value, rest) => (-value, rest)
  | '+' :: rest => (decimal? rest).map fun (value, rest) => (value, rest)
  | rest => (decimal? rest).map fun (value, rest) => (value, rest)

/-- Integers have 64 bits. -/
def IsWord (value : Int) : Prop :=
  Int64.minValue.toInt ≤ value ∧ value ≤ Int64.maxValue.toInt

instance (value : Int) : Decidable (IsWord value) := by
  unfold IsWord
  infer_instance

/-! Strings. -/

/-- A character by its code point in `count` hexadecimal digits. -/
def codePoint? (count : Nat) (text : List Char) : Option (Char × List Char) := do
  let digits ← (text.take count).mapM (Text.digit? 16)
  let code := Text.ofDigits 16 digits
  if digits.length = count ∧ code.isValidChar then some (.ofNat code, text.drop count)
  else none

/-- The character of an escape, behind its backslash. -/
def escape? : List Char → Option (Char × List Char)
  | 'b' :: rest => some ('\x08', rest)
  | 't' :: rest => some ('\t', rest)
  | 'n' :: rest => some ('\n', rest)
  | 'f' :: rest => some ('\x0c', rest)
  | 'r' :: rest => some ('\r', rest)
  | '"' :: rest => some ('"', rest)
  | '\\' :: rest => some ('\\', rest)
  | 'u' :: rest => codePoint? 4 rest
  | 'U' :: rest => codePoint? 8 rest
  | _ => none

/-- One character between double quotes. -/
def basicItem : Item Char
  | '\\' :: rest => (escape? rest).map fun (character, rest) => ([character], rest)
  | character :: rest =>
      if isPlain character ∧ character ≠ '"' then some ([character], rest) else none
  | [] => none

/-- One character between single quotes, where nothing is escaped. -/
def literalItem : Item Char
  | character :: rest =>
      if isPlain character ∧ character ≠ '\'' then some ([character], rest) else none
  | [] => none

/-- A backslash at the end of a line joins the next text to it. -/
def joinedItem : Item Char
  | '\\' :: rest =>
      match lineEnd? (skipBlanks rest) with
      | some rest => some ([], skipLines rest)
      | none => basicItem ('\\' :: rest)
  | text => basicItem text

/-- Between tripled quotes there may be line ends, and one or two quotes on their
own. -/
def blockItem (quote : Char) (item : Item Char) : Item Char := fun text =>
  match lineEnd? text, text.takeWhile (· = quote) with
  | some rest, _ => some (['\n'], rest)
  | none, [] => item text
  | none, quotes => if quotes.length < 3 then some (quotes, text.drop quotes.length) else none

/-- Of up to five quotes at the end of a block, the last three close it. -/
def closeBlock (quote : Char) : Item Char := fun text =>
  let count := (text.takeWhile (· = quote)).length
  if 3 ≤ count then
    let inside := min (count - 3) 2
    some (List.replicate inside quote, text.drop (inside + 3))
  else none

/-- What is between quotes on one line, behind the opening one. -/
def quoted? (quote : Char) (item : Item Char) (text : List Char) : Option (String × List Char) :=
  match many item text with
  | (characters, close :: rest) =>
      if close = quote then some (String.ofList characters, rest) else none
  | (_, []) => none

/-- What is between tripled quotes, behind the opening ones.  A line end right
behind them is left out. -/
def block? (quote : Char) (item : Item Char) (text : List Char) : Option (String × List Char) := do
  let (characters, rest) := many (blockItem quote item) ((lineEnd? text).getD text)
  let (quotes, rest) ← closeBlock quote rest
  return (String.ofList (characters ++ quotes), rest)

def lineString? : List Char → Option (String × List Char)
  | '"' :: rest => quoted? '"' basicItem rest
  | '\'' :: rest => quoted? '\'' literalItem rest
  | _ => none

def string? : List Char → Option (String × List Char)
  | '"' :: '"' :: '"' :: rest => block? '"' joinedItem rest
  | '\'' :: '\'' :: '\'' :: rest => block? '\'' literalItem rest
  | text => lineString? text

/-! Lines. -/

def content? : List Char → Option (Content × List Char)
  | 't' :: 'r' :: 'u' :: 'e' :: rest => some (.flag true, rest)
  | 'f' :: 'a' :: 'l' :: 's' :: 'e' :: rest => some (.flag false, rest)
  | text =>
      match string? text with
      | some (string, rest) => some (.text string, rest)
      | none => do
          let (value, rest) ← integer? text
          if IsWord value then some (.integer value, rest) else none

def isKeyCharacter (character : Char) : Bool :=
  character.isAlphanum || character = '_' || character = '-'

def key? (text : List Char) : Option (String × List Char) :=
  (lineString? text).or <|
    let (name, rest) := text.span isKeyCharacter
    if name = [] then none else some (String.ofList name, rest)

/-- The end of a line or of the text, before which there may be a comment. -/
def endLine? (text : List Char) : Option (List Char) :=
  let text := match skipBlanks text with
    | '#' :: comment => comment.dropWhile isPlain
    | text => text
  if text = [] then some [] else lineEnd? text

/-- One line, with its binding if it has one. -/
def line : Item Binding := fun text =>
  match endLine? text with
  | some rest => some ([], rest)
  | none => do
      let (key, rest) ← key? (skipBlanks text)
      let '=' :: rest := skipBlanks rest | none
      let (content, rest) ← content? (skipBlanks rest)
      let rest ← endLine? rest
      return ([⟨key, content⟩], rest)

/-- The bindings of a document, in order.  A byte order mark may come first. -/
def parse (source : String) : Option (List Binding) :=
  let text := match source.toList with
    | '\ufeff' :: text => text
    | text => text
  match many line text with
  | (bindings, []) => some bindings
  | (_, _ :: _) => none

end Document

/-- Each setting is bound once, to content of its own kind. -/
def add (settings : Settings) (binding : Binding) : Option Settings :=
  match binding.key, binding.content with
  | "strategy", .text word =>
      if settings.strategy = none then some { settings with strategy := word } else none
  | "introspect_skipped", .flag flag =>
      if settings.introspectSkipped = none then some { settings with introspectSkipped := flag }
      else none
  | "combination_warning", .integer (.ofNat count) =>
      if settings.combinationWarning = none then some { settings with combinationWarning := count }
      else none
  | "max_combinations", .integer (.ofNat count) =>
      if settings.maxCombinations = none then some { settings with maxCombinations := count }
      else none
  | _, _ => none

/-- The settings that a document binds. -/
def parse : Reader := fun source => do
  (← Document.parse source).foldlM add {}

end MultiDispatch.Settings
