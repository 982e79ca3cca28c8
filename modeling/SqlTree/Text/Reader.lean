import SqlTree.Text.Slice

namespace SqlTree

/-- A place in a text together with the characters that follow it. -/
structure Cursor where
  position : Position
  rest : List Char
  deriving DecidableEq

namespace Cursor

/-- Before the first character of `text`. -/
def ofText (text : List Char) : Cursor := ⟨.start, text⟩

def atEnd (c : Cursor) : Bool := c.rest.isEmpty

def peek? (c : Cursor) : Option Char := c.rest.head?

/-- The character behind the next one. -/
def peekNext? (c : Cursor) : Option Char := (c.rest.drop 1).head?

/-- Behind the next character; at the end of the text nothing moves. -/
def next (c : Cursor) : Cursor :=
  match c.rest with
  | [] => c
  | x :: rest => ⟨c.position.after x, rest⟩

end Cursor

/-- Receipt for a saved place: how many saved places lay below it. -/
structure Mark where
  depth : Nat
  deriving DecidableEq

/-- A text, the place reached in it, and the saved places, oldest first. -/
structure Reader where
  text : List Char
  cursor : Cursor
  marks : List Cursor
  deriving DecidableEq

namespace Reader

def ofText (text : List Char) : Reader := ⟨text, .ofText text, []⟩

def position (r : Reader) : Position := r.cursor.position

/-- How many places are saved. -/
def depth (r : Reader) : Nat := r.marks.length

/-- Reads one character; at the end of the text nothing moves. -/
def advance (r : Reader) : Option Char × Reader :=
  (r.cursor.peek?, { r with cursor := r.cursor.next })

/-- Reads up to `count` characters. -/
def advanceBy : Nat → Reader → List Char × Reader
  | 0, r => ([], r)
  | count + 1, r =>
    match r.advance with
    | (none, r) => ([], r)
    | (some c, r) =>
      let (cs, r) := advanceBy count r
      (c :: cs, r)

/-- The text between two places, empty where they do not cut the text. -/
def slice (r : Reader) (start stop : Position) : List Char :=
  (sliceBytes r.text start.offset stop.offset).getD []

/-- Saves the place reached. -/
def mark (r : Reader) : Mark × Reader :=
  (⟨r.depth⟩, { r with marks := r.marks ++ [r.cursor] })

/-- A mark can be settled as long as its own place is still saved. -/
def isLive (r : Reader) (m : Mark) : Bool := m.depth < r.depth

/-- Goes back to a saved place and forgets it and all places saved since. -/
def rewind (r : Reader) (m : Mark) : Reader :=
  match r.marks[m.depth]? with
  | some saved => { r with cursor := saved, marks := r.marks.take m.depth }
  | none => r

/-- Stays, and forgets a saved place and all places saved since. -/
def release (r : Reader) (m : Mark) : Reader :=
  { r with marks := r.marks.take m.depth }

/-- Moves to a place of the same text. -/
def moveTo (r : Reader) (target : Cursor) : Reader :=
  { r with cursor := target }

end Reader

end SqlTree
