import BuildRunner.Text.Escape

/-!
# Blanks, line breaks, texts and keys in TOML

The smallest parts of the TOML grammar. Each function reads its part at the front of a text and
gives what follows it, or nothing where the text does not start with such a part. A text between
double quotes has escapes, one between single quotes has none; three quotes allow line breaks, all
of which count as line feeds.
-/

namespace BuildRunner.Toml

/-- The characters that may stand between parts of a line. -/
def isSpace (c : Char) : Bool :=
  c = ' ' || c = '\t'

/-- The text behind its leading spaces and tabs. -/
def skipSpaces (cs : List Char) : List Char :=
  cs.dropWhile isSpace

/-- What follows a line break: a line feed, or a carriage return and a line feed. -/
def lineBreak? : List Char → Option (List Char)
  | '\n' :: rest => some rest
  | '\r' :: '\n' :: rest => some rest
  | _ => none

/-- What follows a comment, which may be missing. -/
def skipComment : List Char → List Char
  | '#' :: rest => rest.dropWhile Text.isQuotable
  | cs => cs

/-- What follows the end of a line: spaces, perhaps a comment, and a line break or the end of the
text. -/
def lineEnd? (cs : List Char) : Option (List Char) :=
  match skipComment (skipSpaces cs) with
  | [] => some []
  | rest => lineBreak? rest

/-- The text behind spaces, line breaks and comments. `inComment` tells whether the front is inside
a comment. -/
def skipGaps : Bool → List Char → List Char
  | _, [] => []
  | inComment, '\r' :: rest =>
    match rest with
    | '\n' :: _ => skipGaps inComment rest
    | _ => '\r' :: rest
  | _, '\n' :: rest => skipGaps false rest
  | true, c :: rest => if Text.isQuotable c then skipGaps true rest else c :: rest
  | false, c :: rest =>
    if c = '#' then skipGaps true rest
    else if isSpace c then skipGaps false rest
    else c :: rest

/-- A text of several lines up to three quotes in a row, of which at most two more quotes before
them belong to it. With `escapes` a backslash keeps the next character from being looked at. -/
def untilTripled? (quote : Char) (escapes : Bool) : List Char → Option (List Char × List Char)
  | [] => none
  | c :: rest =>
    if [quote, quote, quote].isPrefixOf (c :: rest) then
      let more := ((rest.drop 2).takeWhile (· = quote)).take 2
      some (more, rest.drop (2 + more.length))
    else if escapes && c = '\\' then
      match rest with
      | [] => none
      | d :: rest =>
        (untilTripled? quote escapes rest).map fun (text, rest) => (c :: d :: text, rest)
    else (untilTripled? quote escapes rest).map fun (text, rest) => (c :: text, rest)

/-- The text with line feeds for all line breaks. -/
def normalBreaks : List Char → List Char
  | '\r' :: '\n' :: rest => '\n' :: normalBreaks rest
  | c :: rest => c :: normalBreaks rest
  | [] => []

/-- The text in which a backslash at the end of a line is gone, together with the blanks and line
breaks behind it. `skipping` tells whether the front stands behind such a backslash. -/
def joinLines : Bool → List Char → List Char
  | _, [] => []
  | skipping, '\\' :: rest =>
    if (skipSpaces rest).head? = some '\n' then joinLines true rest
    else
      match skipping, rest with
      | _, [] => ['\\']
      | _, c :: rest => '\\' :: c :: joinLines false rest
  | skipping, c :: rest =>
    if skipping && (isSpace c || c = '\n') then joinLines true rest else c :: joinLines false rest

/-- Whether a character may stand in a text of several lines. -/
def isQuotableInLines (c : Char) : Bool :=
  c = '\n' || Text.isQuotable c

/-- The text without the line break it starts with, if it does. -/
def dropBreak (cs : List Char) : List Char :=
  (lineBreak? cs).getD cs

/-- A text of several lines behind its opening quotes. -/
def linesText? (quote : Char) (rest : List Char) : Option (List Char × List Char) := do
  let escapes := quote = '"'
  let (text, rest) ← untilTripled? quote escapes (dropBreak rest)
  let text := normalBreaks text
  if escapes then return (← Text.unescape? isQuotableInLines (joinLines false text), rest)
  else if text.all isQuotableInLines then return (text, rest)
  else none

/-- A text between single quotes, behind the opening one. -/
def literalText? (rest : List Char) : Option (List Char × List Char) :=
  let text := rest.takeWhile (· ≠ '\'')
  match rest.dropWhile (· ≠ '\'') with
  | _ :: rest => if text.all Text.isQuotable then some (text, rest) else none
  | [] => none

/-- A quoted text of one line. -/
def lineText? : List Char → Option (List Char × List Char)
  | '"' :: rest => Text.quotedText? rest
  | '\'' :: rest => literalText? rest
  | _ => none

/-- A quoted text. -/
def text? : List Char → Option (List Char × List Char)
  | '"' :: '"' :: '"' :: rest => linesText? '"' rest
  | '\'' :: '\'' :: '\'' :: rest => linesText? '\'' rest
  | cs => lineText? cs

/-- The characters of a name without quotes. -/
def isNameChar (c : Char) : Bool :=
  c.isAlphanum || c = '_' || c = '-'

/-- One name of a key. -/
def name? (cs : List Char) : Option (List Char × List Char) :=
  match cs with
  | '"' :: _ => lineText? cs
  | '\'' :: _ => lineText? cs
  | _ =>
    let name := cs.takeWhile isNameChar
    if name = [] then none else some (name, cs.dropWhile isNameChar)

/-- How deeply values may be nested and how many names a key may have. -/
def nestingLimit : Nat := 79

/-- The names of a key, with dots between them and spaces around them; `count` bounds how many. -/
def keyNames? : Nat → List Char → Option (List String × List Char)
  | 0, _ => none
  | count + 1, cs => do
    let (name, rest) ← name? (skipSpaces cs)
    let name := String.ofList name
    match skipSpaces rest with
    | '.' :: rest =>
      let (names, rest) ← keyNames? count rest
      return (name :: names, rest)
    | rest => return ([name], rest)

/-- A key. -/
def key? (cs : List Char) : Option (List String × List Char) :=
  keyNames? nestingLimit cs

end BuildRunner.Toml
