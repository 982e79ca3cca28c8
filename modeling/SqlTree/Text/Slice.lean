import SqlTree.Text.Position

namespace SqlTree

/-- The characters from byte `offset` on, if a character or the end of the text begins there. -/
def dropBytes : List Char → Nat → Option (List Char)
  | text, 0 => some text
  | [], _ + 1 => none
  | c :: text, offset + 1 =>
    if c.utf8Size ≤ offset + 1 then dropBytes text (offset + 1 - c.utf8Size) else none

/-- The characters that fill the first `size` bytes exactly. -/
def takeBytes : List Char → Nat → Option (List Char)
  | _, 0 => some []
  | [], _ + 1 => none
  | c :: text, size + 1 =>
    if c.utf8Size ≤ size + 1 then (takeBytes text (size + 1 - c.utf8Size)).map (c :: ·) else none

/-- The characters from byte `start` up to byte `stop`. -/
def sliceBytes (text : List Char) (start stop : Nat) : Option (List Char) :=
  if start ≤ stop then
    match dropBytes text start with
    | some rest => takeBytes rest (stop - start)
    | none => none
  else none

/-- The text under a span. -/
def Span.snippet? (s : Span) (text : String) : Option String :=
  (sliceBytes text.toList s.start.offset s.stop.offset).map String.ofList

/-- The text under a span, empty where the span does not cut the text. -/
def Span.snippet (s : Span) (text : String) : String :=
  (s.snippet? text).getD ""

end SqlTree
