import BuildRunner.Path.Basic
import BuildRunner.Text.Lines

/-!
# Listings

The text a scan writes: for each file a heading with its path, then its lines, each behind two
spaces. Reading it back takes every line that starts with two spaces as content of the file headed
before it.
-/

namespace BuildRunner.Listing

/-- What stands before the path in a heading. -/
def headingWords : String := "documentation in "

/-- What stands before a line of content. -/
def indent : String := "  "

/-- A line of content as it is written. -/
def contentLine (line : String) : String :=
  indent ++ line ++ "\n"

/-- The listing of one file. -/
def block (path : Path) (lines : List String) : String :=
  headingWords ++ path.text ++ "\n" ++ String.join (lines.map contentLine)

/-- One line of a listing added to what was read of the lines behind it: content not yet headed,
and the files headed so far. -/
def readLine (line : List Char) (read : List String × List (String × List String)) :
    List String × List (String × List String) :=
  if indent.toList.isPrefixOf line then
    (String.ofList (line.drop indent.length) :: read.1, read.2)
  else ([], (String.ofList (line.drop headingWords.length), read.1) :: read.2)

/-- The files of a listing, with their lines. -/
def read (listing : String) : List (String × List String) :=
  (((Text.splitAtEach '\n' listing.toList).dropLast).foldr readLine ([], [])).2

end BuildRunner.Listing
