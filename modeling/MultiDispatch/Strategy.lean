import MultiDispatch.Text.Blank

/-!
# Call-site strategies

A call site either closes over its method or packs its arguments into a record
with one fixed slot per position.
-/

namespace MultiDispatch

inductive Strategy where
  | closure
  | valueObject
  deriving DecidableEq

namespace Strategy

def text : Strategy → String
  | .closure => "closure"
  | .valueObject => "value-object"

def inspect : Strategy → String
  | .closure => "Closure"
  | .valueObject => "ValueObject"

/-- Blanks around the word and ASCII capitals have no meaning. -/
def normalize (text : String) : String :=
  String.ofList ((Text.trim text.toList).map Char.toLower)

def ofText? (text : String) : Option Strategy :=
  match normalize text with
  | "closure" | "proc" => some .closure
  | "value-object" | "value_object" | "valueobject" | "record" => some .valueObject
  | _ => none

end Strategy

/-- A word that names no strategy. -/
structure UnknownStrategy where
  word : String
  deriving DecidableEq

namespace UnknownStrategy

def message (unknown : UnknownStrategy) : String :=
  s!"unknown strategy `{unknown.word}` (expected `closure` or `value-object`)"

end UnknownStrategy

def Strategy.parse (text : String) : Except UnknownStrategy Strategy :=
  match Strategy.ofText? text with
  | some strategy => .ok strategy
  | none => .error ⟨Strategy.normalize text⟩

end MultiDispatch
