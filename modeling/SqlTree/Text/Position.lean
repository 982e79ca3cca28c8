namespace SqlTree

/-- A place between two characters of a text: the bytes before it, its line and its column.
Lines and columns count from one, lines by line feeds and columns by characters. -/
structure Position where
  offset : Nat
  line : Nat
  column : Nat
  deriving DecidableEq

namespace Position

/-- The place before the first character. -/
def start : Position := ⟨0, 1, 1⟩

/-- The place just behind `c`, when `c` stands at `p`. -/
def after (p : Position) (c : Char) : Position :=
  if c = '\n' then ⟨p.offset + c.utf8Size, p.line + 1, 1⟩
  else ⟨p.offset + c.utf8Size, p.line, p.column + 1⟩

/-- The place behind the characters `text`, when they stand at `p`. -/
def afterAll (p : Position) (text : List Char) : Position :=
  text.foldl after p

/-- Order by offset, then line, then column. Two places of one text differ in the offset. -/
def compare (p q : Position) : Ordering :=
  (Ord.compare p.offset q.offset).then
    ((Ord.compare p.line q.line).then (Ord.compare p.column q.column))

/-- The later of two places. -/
def later (p q : Position) : Position :=
  if (p.compare q).isGT then p else q

/-- How a place is told to a reader; the offset is left out. -/
def describe (p : Position) : String :=
  s!"line {p.line}, column {p.column}"

@[simp] theorem afterAll_nil (p : Position) : p.afterAll [] = p := rfl

@[simp] theorem afterAll_cons (p : Position) (c : Char) (text : List Char) :
    p.afterAll (c :: text) = (p.after c).afterAll text := rfl

theorem afterAll_append (p : Position) (a b : List Char) :
    p.afterAll (a ++ b) = (p.afterAll a).afterAll b := by
  simp [afterAll]

end Position

/-- The stretch of text between two places. -/
structure Span where
  start : Position
  stop : Position
  deriving DecidableEq

namespace Span

/-- The span of nothing at the start of a text. -/
def nothing : Span := ⟨.start, .start⟩

/-- Length in bytes. -/
def size (s : Span) : Nat := s.stop.offset - s.start.offset

def isEmpty (s : Span) : Bool := s.start.offset == s.stop.offset

/-- The smallest span around both; of two equal offsets the place of `t` is taken. -/
def merge (s t : Span) : Span :=
  ⟨if s.start.offset < t.start.offset then s.start else t.start,
    if t.stop.offset < s.stop.offset then s.stop else t.stop⟩

/-- Whether `t` lies inside `s`. -/
def contains (s t : Span) : Bool :=
  s.start.offset ≤ t.start.offset && t.stop.offset ≤ s.stop.offset

end Span

end SqlTree
