import SqlTree.Grammar.Select

namespace SqlTree.SqlRule

open Rule

def referentialAction : SqlRule ReferentialAction := do
  if ← eatKeyword .CASCADE then return .cascade
  else if ← eatKeyword .RESTRICT then return .restrict
  else if ← eatKeyword .SET then
    if ← eatKeyword .NULL then return .setNull
    else
      let _ ← expectKeyword .DEFAULT
      return .setDefault
  else if ← eatKeyword .NO then
    let _ ← expectKeyword .ACTION
    return .noAction
  else failAny ["CASCADE", "RESTRICT", "SET", "NO"]

/-- What is to happen on DELETE and on UPDATE; of several clauses for one of them the last
counts. -/
def referentialActions : SqlRule (Option ReferentialAction × Option ReferentialAction) := do
  let step (actions : Option ReferentialAction × Option ReferentialAction) :
      SqlRule (Option (Option ReferentialAction × Option ReferentialAction)) := do
    if ← eatKeyword .ON then
      if ← eatKeyword .DELETE then return some (some (← referentialAction), actions.2)
      else if ← eatKeyword .UPDATE then return some (actions.1, some (← referentialAction))
      else failAny ["DELETE", "UPDATE"]
    else return none
  loop step (none, none)

def foreignKey : SqlRule ForeignKey := do
  let start ← start
  let _ ← expectKeyword .REFERENCES
  let table ← objectName
  let columns ← optional identifierList
  let (onDelete, onUpdate) ← referentialActions
  return ⟨table, columns.getD [], onDelete, onUpdate, ← spanFrom start⟩

/-- The name of a constraint, or nothing. -/
def constraintName? : SqlRule (Option Ident) := do
  if ← eatKeyword .CONSTRAINT then return some (← identifier) else return none

/-- A condition between parentheses. -/
def parenthesizedCondition : SqlRule Expr := do
  let _ ← expect .leftParen
  let condition ← expression
  let _ ← expect .rightParen
  return condition

def notNull : SqlRule ColumnConstraintKind := do
  let _ ← expectKeyword .NOT
  let _ ← expectKeyword .NULL
  return .notNull

def null : SqlRule ColumnConstraintKind := do
  let _ ← expectKeyword .NULL
  return .null

def primaryKey : SqlRule ColumnConstraintKind := do
  let _ ← expectKeyword .PRIMARY
  let _ ← expectKeyword .KEY
  if ← eatKeyword .ASC then return .primaryKey (some .asc)
  else if ← eatKeyword .DESC then return .primaryKey (some .desc)
  else return .primaryKey none

def unique : SqlRule ColumnConstraintKind := do
  let _ ← expectKeyword .UNIQUE
  return .unique

/-- A default is an operand, so that NOT NULL behind it is a constraint of its own. -/
def defaultValue : SqlRule ColumnConstraintKind := do
  let _ ← expectKeyword .DEFAULT
  return .default (← operand)

def checkConstraint : SqlRule ColumnConstraintKind := do
  let _ ← expectKeyword .CHECK
  return .check (← parenthesizedCondition)

def references : SqlRule ColumnConstraintKind := do
  return .references (← foreignKey)

/-- A constraint that every dialect has. -/
def columnConstraintKind : SqlRule ColumnConstraintKind :=
  choice [notNull, null, primaryKey, unique, defaultValue, checkConstraint, references]

def autoIncrement (k : Keyword) : SqlRule ColumnConstraintKind := do
  let _ ← expectKeyword k
  return .autoIncrement

/-- A constraint of some kind, perhaps with a name. -/
def namedColumnConstraint (kind : SqlRule ColumnConstraintKind) : SqlRule ColumnConstraint := do
  let start ← start
  let name ← constraintName?
  let kind ← kind
  return ⟨name, kind, ← spanFrom start⟩

/-- A constraint on a column that every dialect has. -/
def standardColumnConstraint : SqlRule ColumnConstraint :=
  namedColumnConstraint columnConstraintKind

/-- A constraint on a column in the dialect at hand. -/
def columnConstraint (f : Features) : SqlRule ColumnConstraint :=
  match f.autoIncrement with
  | some k => namedColumnConstraint (choice [columnConstraintKind, autoIncrement k])
  | none => standardColumnConstraint

def columnDef (f : Features) : SqlRule ColumnDef := do
  let start ← start
  let name ← identifier
  let type ← optional dataType
  let constraints ← many (columnConstraint f)
  return ⟨name, type, constraints, ← spanFrom start⟩

def tableConstraintKind : SqlRule TableConstraintKind := do
  if ← eatKeyword .PRIMARY then
    let _ ← expectKeyword .KEY
    return .primaryKey (← identifierList)
  else if ← eatKeyword .UNIQUE then return .unique (← identifierList)
  else if ← eatKeyword .FOREIGN then
    let _ ← expectKeyword .KEY
    let columns ← identifierList
    return .foreignKey columns (← foreignKey)
  else if ← eatKeyword .CHECK then return .check (← parenthesizedCondition)
  else failAny ["PRIMARY", "UNIQUE", "FOREIGN", "CHECK"]

def tableConstraint : SqlRule TableConstraint := do
  let start ← start
  let name ← constraintName?
  let kind ← tableConstraintKind
  return ⟨name, kind, ← spanFrom start⟩

/-- What stands between the parentheses of a table. -/
inductive TableElement where
  | column (column : ColumnDef)
  | constraint (constraint : TableConstraint)

namespace TableElement

def column? : TableElement → Option ColumnDef
  | column c => some c
  | constraint _ => none

def constraint? : TableElement → Option TableConstraint
  | column _ => none
  | constraint c => some c

end TableElement

def constraintElement : SqlRule TableElement := do
  return .constraint (← tableConstraint)

def columnElement (f : Features) : SqlRule TableElement := do
  return .column (← columnDef f)

def tableElement (f : Features) : SqlRule TableElement :=
  choice [constraintElement, columnElement f]

def temporary : SqlRule Bool := do
  if ← eatKeyword .TEMPORARY then return true else eatKeyword .TEMP

def ifNotExists (f : Features) : SqlRule Bool := do
  if ← (if f.ifNotExists then eatKeyword .IF else return false) then
    let _ ← expectKeyword .NOT
    let _ ← expectKeyword .EXISTS
    return true
  else return false

/-- Columns and constraints may be mixed; each kind keeps its order. -/
def createTableStatement (f : Features) : SqlRule CreateTableStatement := do
  let start ← start
  let _ ← expectKeyword .CREATE
  let temporary ← temporary
  let _ ← expectKeyword .TABLE
  let ifNotExists ← ifNotExists f
  let name ← objectName
  let elements ← parenthesizedList (tableElement f)
  return ⟨temporary, ifNotExists, name, elements.filterMap (·.column?),
    elements.filterMap (·.constraint?), ← spanFrom start⟩

end SqlTree.SqlRule
