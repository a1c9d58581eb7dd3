/-!
# Words of scripts

A word of a script is a row of pieces: text that stands for itself, and parameters. Quoted pieces
stay in one field; a parameter outside quotes is cut at its blanks. A parameter may come with a word
that takes its place where it has no value.

Scripts are read byte by byte and need not be Unicode. So in the texts of a script, and only there,
a character stands for the byte of its number.
-/

namespace BuildRunner.Script

/-- Bytes as a text of a script. -/
def ofBytes (bytes : List UInt8) : String :=
  String.ofList (bytes.map fun byte => Char.ofNat byte.toNat)

/-- The bytes that a text of a script stands for. -/
def toBytes (text : String) : List UInt8 :=
  text.toList.map fun c => UInt8.ofNat c.toNat

/-- What a parameter stands for. -/
inductive Parameter where
  /-- The script itself (zero) or one of its arguments. -/
  | position (place : Nat)
  /-- How many arguments there are. -/
  | count
  /-- All arguments. -/
  | all
  /-- All arguments, each a field of its own. -/
  | each
  /-- The running script. -/
  | itself
  /-- How the last command ended. -/
  | status
  deriving DecidableEq, Repr

/-- A part of a word. -/
inductive Piece where
  | text (quoted : Bool) (content : List Char)
  | value (quoted : Bool) (parameter : Parameter) (fallback : Option (List Piece))

/-- What parameters stand for while a script runs. -/
structure Parameters where
  script : String
  arguments : List String
  status : Nat

/-- A part of a row of fields: text, or a gap between two fields. -/
inductive Chunk where
  | text (quoted : Bool) (content : List Char)
  | gap
  deriving DecidableEq, Repr

/-- The blanks at which a parameter outside quotes is cut. -/
def isCut (c : Char) : Bool :=
  c = ' ' || c = '\t' || c = '\n'

/-- The chunks of a text outside quotes, cut at its blanks. -/
def cutChunks (content : List Char) : List Chunk :=
  content.map fun c => if isCut c then .gap else .text false [c]

/-- The number that stands for a running script where it names itself. -/
def ownNumber : String := "$"

namespace Parameter

/-- The values of a parameter, several when each stands for itself. -/
def values (parameters : Parameters) : Parameter → List String
  | position 0 => [parameters.script]
  | position (place + 1) => (parameters.arguments[place]?).toList
  | count => [toString parameters.arguments.length]
  | all => parameters.arguments
  | each => parameters.arguments
  | itself => [ownNumber]
  | status => [toString parameters.status]

/-- The chunks of a parameter. -/
def chunks (parameters : Parameters) (quoted : Bool) (parameter : Parameter) : List Chunk :=
  let values := parameter.values parameters
  let apart (rows : List (List Chunk)) : List Chunk := (rows.intersperse [.gap]).flatten
  match parameter, quoted with
  | each, true => apart (values.map fun value => [.text true value.toList])
  | _, true => [.text true (String.intercalate " " values).toList]
  | _, false => apart (values.map fun value => cutChunks value.toList)

end Parameter

mutual

/-- The chunks of a piece. -/
def Piece.chunks (parameters : Parameters) : Piece → List Chunk
  | .text quoted content => [.text quoted content]
  | .value quoted parameter none => parameter.chunks parameters quoted
  | .value quoted parameter (some fallback) =>
    if (parameter.values parameters).all (· = "") then
      .text quoted [] :: wordChunks parameters fallback
    else parameter.chunks parameters quoted

/-- The chunks of a word. -/
def wordChunks (parameters : Parameters) : List Piece → List Chunk
  | [] => []
  | piece :: pieces => piece.chunks parameters ++ wordChunks parameters pieces

end

/-- The fields of a row of chunks, behind the field that was begun, if one was. -/
def fieldsFrom : Option (List Char) → List Chunk → List String
  | begun, [] => begun.toList.map String.ofList
  | begun, .gap :: chunks => begun.toList.map String.ofList ++ fieldsFrom none chunks
  | begun, .text quoted content :: chunks =>
    if quoted || content ≠ [] then fieldsFrom (some (begun.getD [] ++ content)) chunks
    else fieldsFrom begun chunks

/-- The fields that words stand for. -/
def fields (parameters : Parameters) (words : List (List Piece)) : List String :=
  words.flatMap fun word => fieldsFrom none (wordChunks parameters word)

/-- A chunk where no fields are wanted. -/
def Chunk.plain : Chunk → List Char
  | text _ content => content
  | gap => [' ']

mutual

/-- What a piece stands for where no fields are wanted. -/
def Piece.plain (parameters : Parameters) : Piece → List Char
  | .text _ content => content
  | .value _ parameter none => (parameter.chunks parameters true).flatMap Chunk.plain
  | .value _ parameter (some fallback) =>
    if (parameter.values parameters).all (· = "") then plainWord parameters fallback
    else (parameter.chunks parameters true).flatMap Chunk.plain

/-- What a word stands for where no fields are wanted: blanks in its parameters do not count. -/
def plainWord (parameters : Parameters) : List Piece → List Char
  | [] => []
  | piece :: pieces => piece.plain parameters ++ plainWord parameters pieces

end

end BuildRunner.Script
