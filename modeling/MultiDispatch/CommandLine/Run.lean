import MultiDispatch.CommandLine.Outcome

/-!
# Runs

A run reads the manifest, then the settings, and then compiles the types that it
was asked for.  The first thing that fails on the way is all that it reports.
-/

namespace MultiDispatch.CommandLine

namespace Request

def source (files : Files) (request : Request) : Except Notice String :=
  match files.read request.manifest with
  | .ok text => .ok text
  | .error error =>
      .error (.error s!"could not read {request.manifest.text}: {error.message}")

def options (read : Settings.Reader) (files : Files) (request : Request) :
    Except Notice CompileOptions :=
  let configured := Settings.forManifest read files request.manifest request.config
  match configured.bind fun settings => settings.compileOptions request.overrides with
  | .ok options => .ok options
  | .error error => .error (.error error.message)

/-- The declarations that were asked for, which have to be there. -/
def selected (request : Request) (decls : List TypeDecl) : Except Notice (List TypeDecl) :=
  match request.only with
  | none => .ok decls
  | some name =>
      match decls.filter fun decl => decl.name = name with
      | [] => .error (.error s!"no type named `{name}` in {request.manifest.text}")
      | named => .ok named

/-- The types to compile and the options to compile them by. -/
def load (read : Settings.Reader) (files : Files) (request : Request) :
    Except Notice (List TypeDecl × CompileOptions) := do
  let source ← request.source files
  let options ← request.options read files
  let decls ← (Manifest.parse source).mapError .ofManifestError
  return (← request.selected decls, options)

def run (read : Settings.Reader) (files : Files) (command : Command) (request : Request) :
    Outcome :=
  match request.load read files with
  | .ok (decls, options) => command.outcome request.manifest (decls.map (·.compile options))
  | .error notice => .ofFailure notice

/-- All paths that a run can read. -/
def paths (request : Request) : List Path :=
  request.manifest ::
    request.config.elim (Settings.candidates request.manifest) fun named => [named]

end Request

end MultiDispatch.CommandLine
