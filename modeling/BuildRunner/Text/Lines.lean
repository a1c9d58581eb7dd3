/-!
# Cutting a text into pieces

A text, by its characters or by its bytes, is cut at every separator, so there is one piece more
than there are separators. Lines are the pieces at line feeds with two exceptions: what stands after
the last line feed is a line only when it is not empty, and a line that a line feed ends loses one
carriage return before it.
-/

namespace BuildRunner.Text

/-- The pieces between the occurrences of `separator`; joining them with it gives the text back. -/
def splitAtEach {α : Type} [DecidableEq α] (separator : α) : List α → List (List α)
  | [] => [[]]
  | c :: rest =>
    match splitAtEach separator rest with
    | [] => [[c]]
    | piece :: pieces => if c = separator then [] :: piece :: pieces else (c :: piece) :: pieces

/-- A line without the carriage return that stands last in it, if one does. -/
def dropCarriageReturn (line : List Char) : List Char :=
  if line.getLast? = some '\r' then line.dropLast else line

/-- The lines of a text. A carriage return that no line feed follows belongs to its line. -/
def lines (text : List Char) : List (List Char) :=
  let pieces := splitAtEach '\n' text
  let ended := pieces.dropLast.map dropCarriageReturn
  match pieces.getLast? with
  | none | some [] => ended
  | some unended => ended ++ [unended]

/-- Whether `needle` occurs in a text as consecutive characters. -/
def occursIn (needle : List Char) : List Char → Bool
  | [] => needle.isEmpty
  | c :: rest => needle.isPrefixOf (c :: rest) || occursIn needle rest

/-- A string cut at every `separator`. -/
def pieces (separator : Char) (s : String) : List String :=
  (splitAtEach separator s.toList).map String.ofList

end BuildRunner.Text
