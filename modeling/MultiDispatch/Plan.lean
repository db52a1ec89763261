import MultiDispatch.Label
import MultiDispatch.Plan.Introspection
import MultiDispatch.Plan.Table

/-!
# Dispatch plans

A plan holds what is decided for one declared type before any handler is
attached: the retained methods, their tables, the strategies and the
introspection index.  Compilation yields a whole plan or the first fault:
oversized expansions come before collisions, and collisions before arguments
that a record cannot store.
-/

namespace MultiDispatch

structure CompileOptions where
  /-- For methods that neither themselves nor by their type have a strategy. -/
  defaultStrategy : Strategy := .valueObject
  /-- Whether skipped methods are visible to introspection. -/
  introspectSkipped : Bool := true
  /-- Larger expansions are reported. -/
  combinationWarning : Nat := 64
  /-- Larger expansions are refused. -/
  maxCombinations : Option Nat := none
  deriving DecidableEq

structure Plan where
  owner : String
  methods : List Retained
  tables : List Table
  /-- For methods without a strategy of their own. -/
  fallback : Strategy
  index : ArityIndex

namespace Plan

/-- A skipped method has no call site and so no strategy. -/
def strategy? (plan : Plan) (method : Retained) : Option Strategy :=
  if method.skip then none else some (method.declared.strategy.getD plan.fallback)

def strategyOf (plan : Plan) (method : Retained) : Strategy :=
  (plan.strategy? method).getD .valueObject

/-- The tables with an entry; only these are dispatched to. -/
def populated (plan : Plan) : List Table := plan.tables.filter fun table => table.IsPopulated

def combinations (plan : Plan) : List Combination := plan.tables.map (·.combination)

def table? (plan : Plan) (types : List Ty) : Option Table :=
  plan.tables.find? fun table => table.combination.types = types

/-- The fault of a value-object entry whose arguments have no fixed storage. -/
def storageFault? (plan : Plan) (table : Table) (method : Retained) : Option ConfigurationError :=
  match plan.strategyOf method, table.combination.layout with
  | .valueObject, .error ty =>
      some (.unstorable plan.owner method.name ty table.combination)
  | _, _ => none

def storageFaults (plan : Plan) : List ConfigurationError :=
  plan.tables.flatMap fun table => table.entries.values.filterMap (plan.storageFault? table)

def entryLine (plan : Plan) (name : String) (method : Retained) : String :=
  let ident := Label.callSite name method.signature
  s!"    {name} -> {ident} [{(plan.strategyOf method).text}]"

def tableLines (plan : Plan) (table : Table) : List String :=
  s!"  {Label.table table.combination} {table.combination.text}" ::
    table.entries.entries.map fun (name, method) => plan.entryLine name method

def arityLines (plan : Plan) : List String :=
  match plan.index.records.entries with
  | [] => []
  | records => "  arity" :: records.map fun (name, record) => s!"    {name} {record.arity.text}"

def lines (plan : Plan) : List String :=
  let combinations := plan.tables.length
  let entries := plan.populated.length
  s!"type {plan.owner} ({combinations} combinations, {entries} entries)" ::
    plan.populated.flatMap plan.tableLines ++ plan.arityLines

def text (plan : Plan) : String := String.join (plan.lines.map (· ++ "\n"))

end Plan

structure Compiled where
  plan : Plan
  diagnostics : List Diagnostic

namespace TypeDecl

def limitFault? (decl : TypeDecl) (options : CompileOptions) (method : Retained) :
    Option ConfigurationError :=
  options.maxCombinations.bind fun limit =>
    if limit < method.signature.count then
      some (.combinationLimit decl.name method.name method.signature.count limit)
    else none

def largeExpansion? (decl : TypeDecl) (options : CompileOptions) (method : Retained) :
    Option Diagnostic :=
  if options.combinationWarning < method.signature.count then
    some ⟨decl.name, method.name,
      .largeExpansion method.signature.count options.combinationWarning⟩
  else none

/-- The first of the faults, if there is one. -/
def throwFirst : List ConfigurationError → Except ConfigurationError Unit
  | [] => pure ()
  | fault :: _ => throw fault

def compile (decl : TypeDecl) (options : CompileOptions) : Except ConfigurationError Compiled := do
  let extraction := Extraction.ofDecl decl
  throwFirst (extraction.methods.filterMap (decl.limitFault? options))
  throwFirst (extraction.methods.filterMap (Retained.collision? decl.name extraction.methods))
  let plan : Plan := {
    owner := decl.name
    methods := extraction.methods
    tables := Table.allOfMethods extraction.methods
    fallback := decl.strategy.getD options.defaultStrategy
    index := .build extraction.methods options.introspectSkipped }
  throwFirst plan.storageFaults
  return {
    plan
    diagnostics :=
      extraction.diagnostics ++ extraction.methods.filterMap (decl.largeExpansion? options) }

end TypeDecl

end MultiDispatch
