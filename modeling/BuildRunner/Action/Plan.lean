import BuildRunner.Context
import BuildRunner.Invocation
import BuildRunner.Tree.Walk

/-!
# Plans

The invocations by which the pages of a project are rendered, made before the first one is started.
A manual page is rendered twice, for the web and for `man`; a page of the site once, for the web.
Sources are named as they are seen from the root, where the programs are started.
-/

namespace BuildRunner.Context

/-- What the names of sources end in. -/
def sourceSuffix : String := ".adoc"

/-- Whether a name is that of a source. -/
def isSource (name : String) : Bool :=
  sourceSuffix.toList.isSuffixOf name.toList

/-- The name of a source without its ending. -/
def stem (name : String) : String :=
  String.ofList (name.toList.take (name.length - sourceSuffix.length))

/-- The names of the sources directly in a directory as they are shown, in the order of their bytes.
Links are no sources. -/
def sourceNames (directory : Directory) : List String :=
  let files := directory.toList.filter fun (name, node) => node.kind = .file && isSource name.text
  (files.map (·.1.text)).mergeSort fun a b => Text.leBytes (Text.utf8 a) (Text.utf8 b)

/-- The two invocations that render a manual page. -/
def pageInvocations (asciidoctor : Path) (docs : Settings.Docs) (name : String) :
    List Invocation :=
  let source := (Path.mk docs.manSrc).join ⟨name⟩
  let webPage := (Path.mk docs.webManOut).join ⟨stem name ++ ".html"⟩
  let manPage := (Path.mk docs.manOut).join ⟨stem name ++ ".1"⟩
  [⟨asciidoctor, ["-b", docs.webFormat, source.text, "-o", webPage.text]⟩,
    ⟨asciidoctor, ["-b", docs.manFormat, source.text, "-o", manPage.text]⟩]

/-- The invocations that render the manual pages. -/
def manPagesPlan (cx : Context) : Run (List Invocation) := do
  let asciidoctor ← cx.needAsciidoctor
  let manSrc := cx.path cx.docs.manSrc
  let directory ← Run.lift (.listing manSrc) ((← Run.world).readDirectory manSrc)
  return (sourceNames directory).flatMap (pageInvocations asciidoctor cx.docs)

/-- The invocation that renders a page of the site. -/
def siteInvocation (asciidoctor : Path) (cx : Context) (source : Path) : Invocation :=
  let seen := (source.stripPrefix? cx.root).getD source
  ⟨asciidoctor, ["-b", cx.docs.webFormat, seen.text]⟩

/-- The invocations that render the site, none where there is no directory for it. -/
def sitePlan (cx : Context) : Run (List Invocation) := do
  let siteDir := cx.path cx.docs.siteDir
  let w ← Run.world
  if w.isDirectory siteDir then
    let asciidoctor ← cx.needAsciidoctor
    let visits ← Run.lift (.walk siteDir) (w.walk siteDir)
    let sources := (visits.filter (Visit.isFileNamed sourceSuffix)).map (·.path)
    return sources.map (siteInvocation asciidoctor cx)
  else
    Run.log .warn .site ("Site directory " ++ siteDir.text ++ " does not exist")
    return []

/-- The invocation that builds the tests, with a summary if asked for. -/
def testsInvocation (cx : Context) (summary : Bool) : Invocation :=
  ⟨cx.zig, ["build", "tests"] ++ if summary then ["--summary", "all"] else []⟩

/-- The invocation that builds the program. -/
def buildInvocation (cx : Context) : Invocation :=
  ⟨cx.zig, ["build", "--summary", "all"]⟩

end BuildRunner.Context
