import BuildRunner.Action.Directories
import BuildRunner.Action.Plan
import BuildRunner.Registry.Help

/-!
# Actions

What commands do: the fixed actions of the build, and recipes, which are given by what they write,
which directives they dispatch in turn, and how they fail. Since a recipe may dispatch directives
whose commands perform it again, performing an action counts how deeply dispatches are nested.
-/

namespace BuildRunner

/-- An action given by its parts, done in the order of the fields. -/
structure Recipe where
  name : String
  /-- What is written to the output stream. -/
  text : Option String
  /-- What is dispatched on the registry at hand. -/
  directives : List String
  /-- How the recipe ends when it is to fail. -/
  failure : Option Failure
  deriving DecidableEq, Repr

/-- What a command can do. -/
inductive Action where
  /-- Building the tests, with or without a summary. -/
  | tests (summary : Bool)
  | clean
  | docs
  | help
  | build
  | site
  | manPages
  | recipe (recipe : Recipe)
  deriving DecidableEq, Repr

/-- The name of an action. -/
def Action.name : Action → String
  | tests summary => if summary then "tests-summary" else "tests"
  | clean => "clean"
  | docs => "docs"
  | help => "help"
  | build => "build"
  | site => "site"
  | manPages => "man-pages"
  | recipe content => content.name

instance : Named Action := ⟨Action.name⟩

/-- Performs a recipe. `dispatch` runs directives. -/
def Recipe.perform (dispatch : List String → Run Unit) (recipe : Recipe) : Run Unit := do
  Run.note (.began recipe.name)
  match recipe.text with
  | none => pure ()
  | some text => Run.write text
  dispatch recipe.directives
  match recipe.failure with
  | none => pure ()
  | some failure => throw failure

/-- Writes the help listing, which ends the run. -/
def Registry.performHelp (registry : Registry Action) : Run Unit := do
  Run.write registry.help
  throw .exit

/-- Performs an action on a registry; dispatches are followed `depth` deep. -/
def Action.perform (programs : Programs) (cx : Context) (registry : Registry Action) :
    Nat → Action → Run Unit
  | 0, _ => throw .nestedTooDeep
  | depth + 1, action =>
    match action with
    | .tests summary => (cx.testsInvocation summary).run programs cx.root
    | .clean => cx.clean
    | .docs => cx.prepareDocs
    | .help => registry.performHelp
    | .build => cx.buildInvocation.run programs cx.root
    | .site => do Invocation.runAll programs cx.root (← cx.sitePlan)
    | .manPages => do Invocation.runAll programs cx.root (← cx.manPagesPlan)
    | .recipe content =>
      content.perform (registry.dispatch (Action.perform programs cx registry depth))

/-- How deeply dispatches may be nested. -/
def nestingLimit : Nat := 4096

/-- Dispatches directives on a registry of actions. -/
def Registry.run (registry : Registry Action) (programs : Programs) (cx : Context)
    (directives : List String) : Run Unit :=
  registry.dispatch (Action.perform programs cx registry nestingLimit) directives

end BuildRunner
