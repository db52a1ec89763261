/-!
# Reports of failed rules

While a manifest is read, the rules that fail at the furthest place reached are
remembered.  A rule that fails takes the place of the failures inside it,
unless exactly one rule failed inside: that one says more.  Places are counted
by the characters left, so a further place has fewer.
-/

namespace MultiDispatch.Manifest

inductive Rule where
  | endOfInput
  | manifest
  | typeDecl
  | method
  | typeKeyword
  | methodKeyword
  | attribute
  | attributeName
  | parameters
  | parameter
  | default
  | defaultText
  | returnType
  | typeExpression
  | typeName
  | typeArguments
  | typePath
  | parameterName
  | methodName
  deriving DecidableEq

namespace Rule

/-- The order in which rules are reported. -/
def all : List Rule :=
  [.endOfInput, .manifest, .typeDecl, .method, .typeKeyword, .methodKeyword, .attribute,
    .attributeName, .parameters, .parameter, .default, .defaultText, .returnType,
    .typeExpression, .typeName, .typeArguments, .typePath, .parameterName, .methodName]

theorem mem_all (rule : Rule) : rule ∈ all := by
  cases rule <;> decide

def name : Rule → String
  | .endOfInput => "EOI"
  | .manifest => "manifest"
  | .typeDecl => "type_decl"
  | .method => "method"
  | .typeKeyword => "kw_type"
  | .methodKeyword => "kw_def"
  | .attribute => "attribute"
  | .attributeName => "attr_name"
  | .parameters => "params"
  | .parameter => "param"
  | .default => "default"
  | .defaultText => "default_expr"
  | .returnType => "return_ty"
  | .typeExpression => "type_expr"
  | .typeName => "type_name"
  | .typeArguments => "generic_args"
  | .typePath => "type_path"
  | .parameterName => "ident"
  | .methodName => "method_name"

end Rule

structure Failures where
  /-- The number of characters left at the furthest place of a failure. -/
  left : Nat
  rules : List Rule

namespace Failures

def start (length : Nat) : Failures := ⟨length, []⟩

/-- The number of rules remembered for a place. -/
def countAt (failures : Failures) (left : Nat) : Nat :=
  if left = failures.left then failures.rules.length else 0

/-- Remembers that `rule` failed where `before` rules were remembered when it
was entered. -/
def record (failures : Failures) (rule : Rule) (left before : Nat) : Failures :=
  if failures.countAt left = before + 1 then
    failures
  else if left = failures.left then
    ⟨left, failures.rules.take before ++ [rule]⟩
  else if left < failures.left then
    ⟨left, [rule]⟩
  else
    failures

/-- The remembered rules in reporting order, each once. -/
def expected (failures : Failures) : List Rule :=
  Rule.all.filter fun rule => rule ∈ failures.rules

@[simp]
theorem mem_expected {failures : Failures} {rule : Rule} :
    rule ∈ failures.expected ↔ rule ∈ failures.rules := by
  simp [expected, Rule.mem_all]

end Failures

/-- Words joined as alternatives of a sentence. -/
def alternatives : List String → String
  | [] => ""
  | [only] => only
  | [first, second] => s!"{first} or {second}"
  | words => ", ".intercalate words.dropLast ++ ", or " ++ words.getLastD ""

end MultiDispatch.Manifest
