import SqlTree.Number.Shortest
import SqlTree.Output.Document

namespace SqlTree.Json

/-- The characters of a string with what JSON cannot hold as it is written as an escape. -/
def escapedChar (c : Char) : List Char :=
  if c = '"' then ['\\', '"']
  else if c = '\\' then ['\\', '\\']
  else if c = '\x08' then ['\\', 'b']
  else if c = '\t' then ['\\', 't']
  else if c = '\n' then ['\\', 'n']
  else if c = '\x0c' then ['\\', 'f']
  else if c = '\r' then ['\\', 'r']
  else if c.toNat < 0x20 then
    let digits := Nat.toDigits 16 c.toNat
    ['\\', 'u'] ++ List.replicate (4 - digits.length) '0' ++ digits
  else [c]

def string (text : String) : String :=
  String.ofList ('"' :: text.toList.flatMap escapedChar ++ ['"'])

/-- Items between brackets, each on a line of its own. -/
def block (indent : Nat) (opening closing : String) (items : List String) : String :=
  if items.isEmpty then opening ++ closing
  else
    let blanks (n : Nat) : String := String.ofList (List.replicate n ' ')
    let line (item : String) : String := blanks (indent + 2) ++ item
    opening ++ "\n" ++ String.intercalate ",\n" (items.map line) ++ "\n" ++ blanks indent ++ closing

def list (indent : Nat) (items : List String) : String := block indent "[" "]" items

/-- Names and values, which are written for the inner level already. -/
def object (indent : Nat) (fields : List (String × String)) : String :=
  block indent "\x7b" "\x7d" (fields.map fun field => string field.1 ++ ": " ++ field.2)

def position (indent : Nat) (p : Position) : String :=
  object indent
    [("offset", toString p.offset), ("line", toString p.line), ("column", toString p.column)]

def span (indent : Nat) (s : Span) : String :=
  object indent [("start", position (indent + 2) s.start), ("end", position (indent + 2) s.stop)]

/-- A number that JSON can hold; infinity is none. -/
def float (x : Binary64) : String :=
  if x.isFinite then x.shortest.text else "null"

mutual

/-- Data that starts `indent` blanks from the margin, over several lines: two more blanks for each level,
and nothing between the brackets of what is empty. -/
def write (indent : Nat) : Document → String
  | .null => "null"
  | .boolean value => if value then "true" else "false"
  | .number value => toString value
  | .float value => float value
  | .text value => string value
  | .position place => position indent place
  | .span s => span indent s
  | .list items => list indent (writeItems (indent + 2) items)
  | .object fields => object indent (writeFields (indent + 2) fields)

def writeItems (indent : Nat) : List Document → List String
  | [] => []
  | item :: items => write indent item :: writeItems indent items

def writeFields (indent : Nat) : List (String × Document) → List (String × String)
  | [] => []
  | (name, value) :: fields => (name, write indent value) :: writeFields indent fields

end

end SqlTree.Json
