import SqlTree.Dialect.Features
import SqlTree.Model.Statement
import SqlTree.Rule.Basic

namespace SqlTree

/-- The rules that may be called again from inside themselves. -/
inductive Symbol : Type → Type where
  /-- An expression none of whose outer operators binds to the left more weakly than `power`. -/
  | expression (power : Nat) : Symbol Expr
  | query : Symbol SelectStatement
  /-- Joined tables between parentheses. -/
  | joinGroup : Symbol TableRef

/-- A rule of the grammar of SQL. -/
abbrev SqlRule := Rule Symbol

namespace SqlRule

open Rule

/-- Consumes a name. -/
def identifier : SqlRule Ident := do
  let token ← peek
  match token.kind with
  | .identifier name =>
    let _ ← bump
    return ⟨name, token.isQuoted, token.span⟩
  | _ => failAny ["identifier"]

/-- How weakly a minus or a tilde in front binds what stands behind it. -/
def signPower : Nat := 17

/-- How weakly NOT binds what stands behind it. -/
def notPower : Nat := 5

/-- Any expression. -/
def expression : SqlRule Expr := call (.expression 0)

/-- An expression that leaves every operator but a postfix cast to what stands around it. -/
def operand : SqlRule Expr := call (.expression signPower)

def selectStatement : SqlRule SelectStatement := call .query

def joinGroup : SqlRule TableRef := call .joinGroup

/-- A name of a table, perhaps with that of its schema. -/
def objectName : SqlRule ObjectName := do
  let start ← start
  let first ← identifier
  if ← eat .dot then
    let name ← identifier
    return ⟨some first, name, ← spanFrom start⟩
  else return ⟨none, first, ← spanFrom start⟩

/-- Names between parentheses, with commas between them. -/
def identifierList : SqlRule (List Ident) := parenthesizedList identifier

end SqlRule

end SqlTree
