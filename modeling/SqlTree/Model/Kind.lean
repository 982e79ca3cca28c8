import SqlTree.Text.Characters

namespace SqlTree

/-- What a text can be parsed as. -/
inductive ModelKind where
  | statement | select | insert | update | delete | createTable | pragma | script | expression
  deriving DecidableEq

namespace ModelKind

def all : List ModelKind :=
  [statement, select, insert, update, delete, createTable, pragma, script, expression]

/-- The name that users write. -/
def name : ModelKind → String
  | statement => "statement"
  | select => "select"
  | insert => "insert"
  | update => "update"
  | delete => "delete"
  | createTable => "create-table"
  | pragma => "pragma"
  | script => "script"
  | expression => "expression"

/-- The name in listings: the words are joined by capitals. -/
def title : ModelKind → String
  | statement => "Statement"
  | select => "Select"
  | insert => "Insert"
  | update => "Update"
  | delete => "Delete"
  | createTable => "CreateTable"
  | pragma => "Pragma"
  | script => "Script"
  | expression => "Expression"

/-- The kind with a given name, in any case and with underscores or hyphens. -/
def ofName? (name : String) : Option ModelKind :=
  let hyphenated := String.ofList (name.toList.map fun c => if c = '_' then '-' else c)
  all.find? fun kind => sameWord kind.name hyphenated

end ModelKind

end SqlTree
