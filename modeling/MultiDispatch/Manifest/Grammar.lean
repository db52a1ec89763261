import MultiDispatch.Manifest.Reader

/-!
# The grammar of manifests

A manifest is a list of type blocks; a block holds method declarations, and a
method its parameters with their types and default texts.  Gaps may stand
between any two tokens, except inside a type name before its arguments, and
every reader but the innermost also takes the gap behind what it reads.
-/

namespace MultiDispatch.Manifest

open Reader (exactly gap located many named optional taken)

structure AttributeNode where
  name : String
  extent : Reader.Extent
  deriving DecidableEq

structure ParameterNode where
  name : String
  /-- The alternatives as they are written. -/
  types : Option (List String)
  default : Option String
  deriving DecidableEq

structure MethodNode where
  attributes : List AttributeNode
  name : String
  parameters : List ParameterNode
  deriving DecidableEq

structure TypeNode where
  attributes : List AttributeNode
  name : String
  methods : List MethodNode
  deriving DecidableEq

namespace Grammar

def token (rule : Rule) (scan : Scan) : Reader String :=
  named rule (taken (.scan scan)) <* gap

def symbol (text : String) : Reader Unit := exactly text <* gap

def keyword (rule : Rule) (text : String) : Reader Unit :=
  named rule (.scan (Scan.keyword text)) <* gap

def mark : Reader AttributeNode := named .attribute do
  symbol "@["
  let (name, extent) ← located (named .attributeName (taken (.scan Scan.attributeName)))
  gap
  exactly "]"
  return ⟨name, extent⟩

def typeAlternatives {α : Type} (name : Reader α) : Reader (List α) := named .typeExpression do
  let first ← name <* gap
  let more ← many do
    symbol "|"
    name <* gap
  return first :: more

def typeArguments {α : Type} (name : Unit → Reader α) : Reader Unit := named .typeArguments do
  symbol "("
  let _ ← typeAlternatives (name ())
  let _ ← many do
    symbol ","
    typeAlternatives (name ())
  exactly ")"

/-- A type name whose arguments nest less than `depth` deep. -/
def typeNameWithin : Nat → Reader Unit
  | 0 => .scan fun _ => none
  | depth + 1 => named .typeName do
      named .typePath (.scan Scan.typePath)
      let _ ← optional (typeArguments fun _ => typeNameWithin depth)

/-- Arguments nest less deep than the text is long. -/
def typeName : Reader String :=
  taken ⟨fun text => (typeNameWithin (text.length + 1)).run text⟩

def typeExpression : Reader (List String) := typeAlternatives typeName

def default : Reader String := named .default do
  symbol "="
  token .defaultText Scan.defaultText

def parameter : Reader ParameterNode := named .parameter do
  let name ← token .parameterName Scan.parameterName
  let types ← optional do
    symbol ":"
    typeExpression
  let default ← optional default
  gap
  return ⟨name, types, default⟩

def parameters : Reader (List ParameterNode) := named .parameters do
  let first ← parameter
  let more ← many do
    symbol ","
    parameter
  let _ ← optional (symbol ",")
  return first :: more

def returnType : Reader (List String) := named .returnType do
  symbol ":"
  typeExpression

def method : Reader MethodNode := named .method do
  let attributes ← many (mark <* gap)
  keyword .methodKeyword "def"
  let name ← token .methodName Scan.methodName
  symbol "("
  let parameters ← optional parameters
  symbol ")"
  let _ ← optional returnType
  return ⟨attributes, name, parameters.getD []⟩

/-- A block ends at its closing brace, without the gap behind it. -/
def typeDecl : Reader TypeNode := named .typeDecl do
  let attributes ← many (mark <* gap)
  keyword .typeKeyword "type"
  let name ← token .typePath Scan.typePath
  symbol "\x7b"
  let methods ← many method
  exactly "\x7d"
  return ⟨attributes, name, methods⟩

def manifest : Reader (List (TypeNode × Reader.Extent)) := named .manifest do
  gap
  let blocks ← many (located typeDecl <* gap)
  named .endOfInput .endOfInput
  return blocks

end Grammar

end MultiDispatch.Manifest
