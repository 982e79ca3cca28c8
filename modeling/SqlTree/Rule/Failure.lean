import SqlTree.LexError

namespace SqlTree

/-- A token that does not fit: where it stands, what would have fit, and the token as found. -/
structure Mismatch where
  position : Position
  expected : List String
  found : String
  deriving DecidableEq

namespace Mismatch

/-- The items of two lists, those of the first one in front; an item of the second one is left
out if it is there already. -/
def pool (first second : List String) : List String :=
  second.foldl (fun items item => if items.contains item then items else items ++ [item]) first

/-- Keeps the one further on in the text. At one place the expectations are pooled. -/
def merge (a b : Mismatch) : Mismatch :=
  if b.position.offset < a.position.offset then a
  else if a.position.offset < b.position.offset then b
  else { a with expected := pool a.expected b.expected }

/-- A list in words: commas, and "or" before the last item. -/
def alternatives : List String → String
  | [] => ""
  | [item] => item
  | item :: rest =>
    String.intercalate ", " (item :: rest.dropLast) ++ " or " ++ rest.getLast?.getD ""

def message (m : Mismatch) : String :=
  match m.expected with
  | [] => s!"unexpected {m.found}"
  | expected => s!"expected {alternatives expected}, found {m.found}"

def describe (m : Mismatch) : String :=
  s!"{m.message} at {m.position.describe}"

end Mismatch

/-- Why a rule fails. -/
inductive Failure where
  | mismatch (m : Mismatch)
  | lexical (e : LexError)
  | cancelled
  | tooDeep (position : Position)
  deriving DecidableEq

namespace Failure

/-- Only a mismatch lets another alternative try. -/
def isTerminal : Failure → Bool
  | mismatch _ => false
  | _ => true

def describe : Failure → String
  | mismatch m => m.describe
  | lexical e => e.describe
  | cancelled => "analysis cancelled"
  | tooDeep position => s!"expression nested too deeply at {position.describe}"

end Failure

end SqlTree
