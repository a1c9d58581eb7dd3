import BuildRunner.Decimal.Numeral
import BuildRunner.Script.Word

/-!
# Commands of scripts

A script is a row of simple commands on lines of their own or with semicolons between them. A
command has words, and redirections of its output to a file or to the stream of complaints. It may
depend on how the command before it ended.
-/

namespace BuildRunner.Script

/-- Where the output of a command goes instead. -/
inductive Redirection where
  | file (append : Bool) (word : List Piece)
  | complaints

/-- When a command is run. -/
inductive Condition where
  | always
  /-- If the command before it succeeded. -/
  | success
  /-- If the command before it failed. -/
  | failure
  deriving DecidableEq, Repr

/-- A simple command, with the line it stands on. -/
structure Command where
  line : Nat
  condition : Condition
  words : List (List Piece)
  redirections : List Redirection

/-- Where a word is being read. -/
structure Place where
  /-- Between double quotes. -/
  quoted : Bool
  /-- Between the braces of a parameter. -/
  braced : Bool

/-- The characters that end a word outside quotes. -/
def endsWord (c : Char) : Bool :=
  c = ' ' || c = '\t' || c = '\n' || c = ';' || c = '&' || c = '|' || c = '<' || c = '>' || c = '('
    || c = ')'

/-- The characters that a backslash makes stand for themselves between double quotes. -/
def isSpecialInQuotes (c : Char) : Bool :=
  c = '$' || c = '`' || c = '"' || c = '\\'

/-- A parameter of one character. -/
def parameter? : Char → Option Parameter
  | '#' => some .count
  | '*' => some .all
  | '@' => some .each
  | '$' => some .itself
  | '?' => some .status
  | c => if c.isDigit then some (.position (c.toNat - '0'.toNat)) else none

/-- The parameter at the front of a text between braces. -/
def bracedParameter? (cs : List Char) : Option (Parameter × List Char) :=
  match Decimal.natural? (cs.takeWhile Char.isDigit) with
  | some place => some (.position place, cs.dropWhile Char.isDigit)
  | none =>
    match cs with
    | c :: rest => (parameter? c).map fun parameter => (parameter, rest)
    | [] => none

/-- The pieces of a word, and what follows it; `fuel` bounds the steps. -/
def pieces? (place : Place) : Nat → List Char → Option (List Piece × List Char)
  | 0, _ => none
  | _ + 1, [] => if place.quoted || place.braced then none else some ([], [])
  | fuel + 1, c :: rest =>
    let literal (content : List Char) (rest : List Char) : Option (List Piece × List Char) := do
      let (pieces, rest) ← pieces? place fuel rest
      return (.text place.quoted content :: pieces, rest)
    if place.braced && c = '\x7d' then some ([], c :: rest)
    else if c = '"' then
      if place.quoted && !place.braced then some ([], c :: rest)
      else do
        let (inner, rest) ← pieces? ⟨true, false⟩ fuel rest
        let (pieces, rest) ← pieces? place fuel (rest.drop 1)
        return ((if inner.isEmpty then [.text true []] else inner) ++ pieces, rest)
    else if c = '\'' && !place.quoted then
      let content := rest.takeWhile (· ≠ '\'')
      match rest.dropWhile (· ≠ '\'') with
      | [] => none
      | _ :: rest => do
        let (pieces, rest) ← pieces? place fuel rest
        return (.text true content :: pieces, rest)
    else if c = '\\' then
      match rest with
      | [] => literal [c] []
      | d :: rest =>
        if d = '\n' then pieces? place fuel rest
        else if !place.quoted then do
          let (pieces, rest) ← pieces? place fuel rest
          return (.text true [d] :: pieces, rest)
        else if isSpecialInQuotes d then literal [d] rest
        else literal [c, d] rest
    else if c = '$' then
      match rest with
      | '\x7b' :: rest => do
        let (parameter, rest) ← bracedParameter? rest
        match rest with
        | '\x7d' :: rest =>
          let (pieces, rest) ← pieces? place fuel rest
          return (.value place.quoted parameter none :: pieces, rest)
        | ':' :: '-' :: rest =>
          let (fallback, rest) ← pieces? ⟨place.quoted, true⟩ fuel rest
          let (pieces, rest) ← pieces? place fuel (rest.drop 1)
          return (.value place.quoted parameter (some fallback) :: pieces, rest)
        | _ => none
      | d :: rest =>
        match parameter? d with
        | some parameter => do
          let (pieces, rest) ← pieces? place fuel rest
          return (.value place.quoted parameter none :: pieces, rest)
        | none => literal [c] (d :: rest)
      | [] => literal [c] []
    else if !place.quoted && !place.braced && endsWord c then some ([], c :: rest)
    else literal [c] rest

/-- A word at the front of a text, and what follows it. -/
def word? (cs : List Char) : Option (List Piece × List Char) :=
  pieces? ⟨false, false⟩ (2 * cs.length + 1) cs

/-- The text behind its leading spaces and tabs. -/
def skipSpaces (cs : List Char) : List Char :=
  cs.dropWhile fun c => c = ' ' || c = '\t'

/-- A redirection behind its first mark, and what follows it. -/
def target? : List Char → Option (Redirection × List Char)
  | '&' :: '2' :: rest => some (.complaints, rest)
  | '>' :: rest => (word? (skipSpaces rest)).map fun (word, rest) => (.file true word, rest)
  | rest => (word? (skipSpaces rest)).map fun (word, rest) => (.file false word, rest)

/-- The redirection at the front of a text, and what follows it. The number of the output stream may
stand before it. -/
def redirection? : List Char → Option (Redirection × List Char)
  | '1' :: '>' :: rest => target? rest
  | '>' :: rest => target? rest
  | _ => none

/-- The words and redirections of a command, and what follows them; `fuel` bounds their count. -/
def parts? : Nat → List Char → Option ((List (List Piece) × List Redirection) × List Char)
  | 0, _ => none
  | fuel + 1, cs =>
    match skipSpaces cs with
    | [] => some (([], []), [])
    | c :: rest =>
      match redirection? (c :: rest) with
      | some (redirection, rest) => do
        let ((words, redirections), rest) ← parts? fuel rest
        return ((words, redirection :: redirections), rest)
      | none =>
        if c = '#' then parts? fuel (rest.dropWhile (· ≠ '\n'))
        else if endsWord c then some (([], []), c :: rest)
        else do
          let (word, rest) ← word? (c :: rest)
          let ((words, redirections), rest) ← parts? fuel rest
          return ((word :: words, redirections), rest)

/-- The commands of a text from a line on; `fuel` bounds their count. -/
def commands? : Nat → Nat → Condition → List Char → Option (List Command)
  | 0, _, _, _ => none
  | fuel + 1, line, condition, cs => do
    let ((words, redirections), rest) ← parts? (cs.length + 1) cs
    let command : List Command :=
      if words.isEmpty && redirections.isEmpty then []
      else [⟨line, condition, words, redirections⟩]
    match rest with
    | [] => return command
    | '\n' :: rest => return command ++ (← commands? fuel (line + 1) .always rest)
    | ';' :: rest => return command ++ (← commands? fuel line .always rest)
    | '&' :: '&' :: rest => return command ++ (← commands? fuel line .success rest)
    | '|' :: '|' :: rest => return command ++ (← commands? fuel line .failure rest)
    | _ => none

/-- The commands of a script. -/
def readCommands? (text : String) : Option (List Command) :=
  commands? (text.length + 1) 1 .always text.toList

end BuildRunner.Script
