import SqlTree.Text.Position

namespace SqlTree

/-- A name as a text gives it to something, without its quotes. -/
structure Ident where
  value : String
  quoted : Bool
  span : Span
  deriving DecidableEq

/-- A name of a table, with that of its schema if the text gives one. -/
structure ObjectName where
  schema : Option Ident
  name : Ident
  span : Span
  deriving DecidableEq

namespace ObjectName

/-- The parts with a point between them. -/
def text (n : ObjectName) : String :=
  match n.schema with
  | some schema => s!"{schema.value}.{n.name.value}"
  | none => n.name.value

end ObjectName

end SqlTree
