import BuildRunner.Text.Blank
import BuildRunner.Text.Lines

/-!
# Markers

A marker selects lines of a text: documentation comments, or lines that say what is still to do.
Selected lines are shown without the blanks around them.
-/

namespace BuildRunner

/-- What a scan looks for. -/
inductive Marker where
  /-- Lines that start with three slashes and go on with more than blanks. -/
  | documentation
  /-- Lines that mention `TODO` anywhere. -/
  | todo
  deriving DecidableEq, Repr

namespace Marker

/-- What a documentation comment starts with. -/
def slashes : List Char := ['/', '/', '/']

/-- What a line to be done mentions. -/
def todoWord : List Char := ['T', 'O', 'D', 'O']

/-- Whether a marker selects a line. -/
def selects : Marker → List Char → Bool
  | documentation, line => slashes.isPrefixOf line && Text.trim line != slashes
  | todo, line => Text.occursIn todoWord line

/-- The selected lines of a text, trimmed. -/
def extractChars (marker : Marker) (text : List Char) : List (List Char) :=
  ((Text.lines text).filter marker.selects).map Text.trim

/-- Whether a marker selects a line given as a string. -/
def selectsLine (marker : Marker) (line : String) : Bool :=
  marker.selects line.toList

/-- The selected lines of a text given as a string. -/
def extract (marker : Marker) (text : String) : List String :=
  (marker.extractChars text.toList).map String.ofList

/-- Whether a file without a selected line is listed. -/
def listsEmptyFiles : Marker → Bool
  | documentation => true
  | todo => false

end Marker

end BuildRunner
