import MultiDispatch.Declaration
import MultiDispatch.Manifest.Grammar

/-!
# Manifests

The declarations of a manifest text.  Reading comes first; the nodes are then
checked in the order of the text, and the first fault is the one reported.
-/

namespace MultiDispatch

namespace Manifest

/-- A piece of the source text, in bytes. -/
structure Span where
  start : Nat
  length : Nat
  deriving DecidableEq

inductive Error where
  | malformed (expected : List Rule) (offset : Nat)
  | unknownAttribute (name : String) (span : Span)
  | skipOnType (type : String) (span : Span)
  | conflictingStrategy (span : Span)
  | duplicateType (name : String) (span : Span)
  deriving DecidableEq

namespace Error

def span : Error → Span
  | .malformed _ offset => ⟨offset, 0⟩
  | .unknownAttribute _ span | .skipOnType _ span | .conflictingStrategy span
  | .duplicateType _ span => span

def message : Error → String
  | .malformed expected _ => s!"syntax error: expected {alternatives (expected.map Rule.name)}"
  | .unknownAttribute name _ => s!"unknown attribute `{name}`"
  | .skipOnType type _ => s!"`Skip` can only be applied to methods, not to type `{type}`"
  | .conflictingStrategy _ => "conflicting strategy attributes"
  | .duplicateType name _ => s!"type `{name}` is declared more than once"

def code : Error → String
  | .malformed _ _ => "send::manifest::syntax"
  | .unknownAttribute _ _ => "send::manifest::unknown_attribute"
  | .skipOnType _ _ => "send::manifest::skip_on_type"
  | .conflictingStrategy _ => "send::manifest::conflicting_strategy"
  | .duplicateType _ _ => "send::manifest::duplicate_type"

def help? : Error → Option String
  | .unknownAttribute _ _ =>
      some "expected one of `Skip`, `UseClosureStrategy`, `UseValueObjectStrategy`"
  | .conflictingStrategy _ =>
      some "use either `UseClosureStrategy` or `UseValueObjectStrategy`, not both"
  | .malformed _ _ | .skipOnType _ _ | .duplicateType _ _ => none

end Error

/-- The span of an extent in a text of `total` bytes. -/
def Reader.Extent.span (total : Nat) (extent : Reader.Extent) : Span :=
  ⟨total - extent.fromStart, extent.fromStart - extent.fromEnd⟩

/-- What the attributes of one item say together. -/
structure Marks where
  strategy : Option Strategy
  skip : Option Span

namespace Marks

def none : Marks := ⟨.none, .none⟩

def add (total : Nat) (marks : Marks) (node : AttributeNode) : Except Error Marks :=
  let span := node.extent.span total
  let use (strategy : Strategy) : Except Error Marks :=
    if marks.strategy.isSome then throw (.conflictingStrategy span)
    else pure { marks with strategy := some strategy }
  match node.name with
  | "Skip" => pure { marks with skip := some span }
  | "UseClosureStrategy" => use .closure
  | "UseValueObjectStrategy" => use .valueObject
  | name => throw (.unknownAttribute name span)

def collect (total : Nat) (attributes : List AttributeNode) : Except Error Marks :=
  attributes.foldlM (add total) none

end Marks

def ParameterNode.declared (node : ParameterNode) : Parameter where
  name := node.name
  constraint := node.types.map Constraint.ofNames
  hasDefault := node.default.isSome

def MethodNode.declared (total : Nat) (owner : String) (node : MethodNode) :
    Except Error MethodDecl := do
  let marks ← Marks.collect total node.attributes
  return {
    owner
    name := node.name
    parameters := node.parameters.map ParameterNode.declared
    strategy := marks.strategy
    skip := marks.skip.isSome }

def TypeNode.declared (total : Nat) (node : TypeNode) : Except Error TypeDecl := do
  let marks ← Marks.collect total node.attributes
  let methods ← node.methods.mapM (MethodNode.declared total node.name)
  if let some span := marks.skip then
    throw (.skipOnType node.name span)
  return { name := node.name, strategy := marks.strategy, methods }

/-- Declares the blocks in order; `earlier` are the declarations before them. -/
def declareAll (total : Nat) (earlier : List TypeDecl) :
    List (TypeNode × Reader.Extent) → Except Error (List TypeDecl)
  | [] => pure []
  | (node, extent) :: rest => do
      let decl ← node.declared total
      if earlier.any fun other => other.name = decl.name then
        throw (.duplicateType decl.name (extent.span total))
      return decl :: (← declareAll total (earlier ++ [decl]) rest)

def parseChars (text : List Char) : Except Error (List TypeDecl) :=
  match Grammar.manifest.run text with
  | (some (blocks, _), _) => declareAll (Reader.bytes text) [] blocks
  | (none, noted) =>
      let failures := noted (.start text.length)
      let remaining := Reader.bytes (text.drop (text.length - failures.left))
      throw (.malformed failures.expected (Reader.bytes text - remaining))

/-- The declarations of a manifest, in the order of its blocks. -/
def parse (source : String) : Except Error (List TypeDecl) := parseChars source.toList

end Manifest

end MultiDispatch
