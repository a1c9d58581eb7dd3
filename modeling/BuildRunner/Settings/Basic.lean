import BuildRunner.Path.Basic

/-!
# Settings

What can be set for a project: the formats and directories of its documentation, and the places of
the tools. Every setting has a default.
-/

namespace BuildRunner.Settings

/-- The settings of the documentation. -/
structure Docs where
  /-- The format of pages for the web. -/
  webFormat : String
  /-- The format of manual pages. -/
  manFormat : String
  /-- Where the sources of the site are. -/
  siteDir : String
  /-- Where the sources of the manual pages are. -/
  manSrc : String
  /-- Where manual pages are put. -/
  manOut : String
  /-- Where manual pages for the web are put. -/
  webManOut : String
  deriving DecidableEq, Repr, Inhabited

/-- The settings of the documentation where nothing is set. -/
def Docs.default : Docs where
  webFormat := "html"
  manFormat := "manpage"
  siteDir := "docs"
  manSrc := "man-src"
  manOut := "man/man1"
  webManOut := "docs/man"

/-- The places of the tools, as far as they are set. -/
structure Tools where
  zig : Option Path
  asciidoctor : Option Path
  deriving DecidableEq, Repr, Inhabited

/-- No place of a tool is set. -/
def Tools.default : Tools := ⟨none, none⟩

end BuildRunner.Settings

namespace BuildRunner

/-- All settings. -/
structure Settings where
  docs : Settings.Docs
  tools : Settings.Tools
  deriving DecidableEq, Repr, Inhabited

/-- The settings where nothing is set. -/
def Settings.default : Settings := ⟨.default, .default⟩

end BuildRunner
