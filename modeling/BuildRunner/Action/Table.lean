import BuildRunner.Action.Basic

/-!
# The commands of the build

The fixed table of commands. Both commands that render pages have the preparation of the
documentation as a prerequisite, so a missing Asciidoctor stops them before any page is rendered.
-/

namespace BuildRunner

/-- The commands in the order in which they are registered. -/
def buildCommands : List (Command Action) :=
  [⟨"tests", "Builds the tests suite", some (.tests false), []⟩,
    ⟨"tests-summary", "Builds the tests suite and runs it with the summary output",
      some (.tests true), []⟩,
    ⟨"clean", "Cleans any zig cache files", some .clean, []⟩,
    ⟨"docs", "Builds the documentation", some .docs, []⟩,
    ⟨"all", "Builds everything including the manual pages and the site, and runs the tests",
      none, [.tests true, .docs, .manPages, .build, .site]⟩,
    ⟨"help", "Prints the help menu", some .help, []⟩,
    ⟨"build", "Builds the VASM program", some .build, []⟩,
    ⟨"vasm", "(alias to build)", some .build, []⟩,
    ⟨"site", "Builds the website documentation", some .site, [.docs]⟩,
    ⟨"man-pages", "Builds the manual pages (also places them in the docs/man directory)",
      some .manPages, [.docs]⟩]

/-- The registry with the commands of a list, registered in order. -/
def Registry.ofCommands {α : Type} (commands : List (Command α)) : Except Failure (Registry α) :=
  commands.foldlM Registry.register Registry.empty

/-- The registry of the build. -/
def buildRegistry : Except Failure (Registry Action) :=
  Registry.ofCommands buildCommands

end BuildRunner
