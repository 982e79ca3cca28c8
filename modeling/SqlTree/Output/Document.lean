import SqlTree.Number.Binary64
import SqlTree.Text.Position

namespace SqlTree

/-- Data without a notation. The fields of an object keep their order. -/
inductive Document where
  | null
  | boolean (value : Bool)
  | number (value : Nat)
  | float (value : Binary64)
  | text (value : String)
  | position (place : Position)
  | span (span : Span)
  | list (items : List Document)
  | object (fields : List (String × Document))

namespace Document

/-- Data with a name for its shape. -/
def tagged (tag : String) (value : Document) : Document := object [(tag, value)]

/-- Several fields with a name for their shape. -/
def record (tag : String) (fields : List (String × Document)) : Document :=
  tagged tag (object fields)

def ofOption {α : Type} (document : α → Document) : Option α → Document
  | some value => document value
  | none => null

def ofList {α : Type} (document : α → Document) (items : List α) : Document :=
  list (items.map document)

def texts (items : List String) : Document := ofList text items

end Document

end SqlTree
