import MultiDispatch.Declaration

/-!
# Extraction

Only a method whose parameters are all typed, with the defaulted ones last, can
be dispatched.  Each declared method is either retained, with its place in the
declaration, or excluded with a diagnostic.
-/

namespace MultiDispatch

/-- A method that can be dispatched. -/
structure Retained where
  declared : MethodDecl
  signature : Signature
  /-- The place in the declaration. -/
  index : Nat
  deriving DecidableEq

namespace Retained

def name (method : Retained) : String := method.declared.name

def arity (method : Retained) : Arity := method.declared.arity

def skip (method : Retained) : Bool := method.declared.skip

end Retained

inductive DiagnosticKind where
  | untypedParameter (parameter : String)
  /-- A required parameter after a defaulted one. -/
  | interiorDefault (parameter : String)
  | largeExpansion (count threshold : Nat)
  deriving DecidableEq

/-- A finding that does not stop a compilation. -/
structure Diagnostic where
  owner : String
  method : String
  kind : DiagnosticKind
  deriving DecidableEq

def DiagnosticKind.text : DiagnosticKind → String
  | .untypedParameter parameter =>
      s!"parameter `{parameter}` has no type restriction; not dispatchable"
  | .interiorDefault parameter =>
      s!"required parameter `{parameter}` follows a defaulted one; not dispatchable"
  | .largeExpansion count threshold =>
      s!"signature expands to {count} combinations (warning threshold {threshold})"

def Diagnostic.text (diagnostic : Diagnostic) : String :=
  s!"{diagnostic.owner}#{diagnostic.method}: {diagnostic.kind.text}"

/-- Why a method is excluded; a missing type is reported before a misplaced
default. -/
def MethodDecl.exclusion? (method : MethodDecl) : Option DiagnosticKind :=
  (method.firstUntyped?.map fun parameter => .untypedParameter parameter.name).or
    (method.requiredAfterDefault?.map fun parameter => .interiorDefault parameter.name)

structure Extraction where
  methods : List Retained
  diagnostics : List Diagnostic

namespace Extraction

def retain? (method : MethodDecl) (index : Nat) : Option Retained :=
  match method.exclusion?, method.signature? with
  | none, some signature => some ⟨method, signature, index⟩
  | _, _ => none

def ofDecl (decl : TypeDecl) : Extraction where
  methods := decl.methods.zipIdx.filterMap fun (method, index) => retain? method index
  diagnostics := decl.methods.filterMap fun method =>
    method.exclusion?.map (⟨decl.name, method.name, ·⟩)

end Extraction

end MultiDispatch
