import SqlTree.Grammar.CreateTable

namespace SqlTree.SqlRule

open Rule

def valuesSource : SqlRule InsertSource := do
  let _ ← expectKeyword .VALUES
  return .values (← commaSeparated (parenthesizedList expression))

def defaultValuesSource : SqlRule InsertSource := do
  let _ ← expectKeyword .DEFAULT
  let _ ← expectKeyword .VALUES
  return .defaultValues

def querySource : SqlRule InsertSource := do
  return .query (← selectStatement)

def insertSource : SqlRule InsertSource :=
  choice [valuesSource, defaultValuesSource, querySource]

def insertStatement (f : Features) : SqlRule InsertStatement := do
  let start ← start
  let _ ← expectKeyword .INSERT
  let _ ← expectKeyword .INTO
  let table ← objectName
  let columns ← optional identifierList
  let source ← insertSource
  let returning ← returningClause f
  return ⟨table, columns.getD [], source, returning, ← spanFrom start⟩

def assignment : SqlRule UpdateAssignment := do
  let start ← start
  let column ← identifier
  let _ ← expect .eq
  let value ← expression
  return ⟨column, value, ← spanFrom start⟩

def updateStatement (f : Features) : SqlRule UpdateStatement := do
  let start ← start
  let _ ← expectKeyword .UPDATE
  let table ← objectName
  let alias? ← alias? f
  let _ ← expectKeyword .SET
  let assignments ← commaSeparated assignment
  let condition ← whereClause?
  let returning ← returningClause f
  return ⟨table, alias?, assignments, condition, returning, ← spanFrom start⟩

def deleteStatement (f : Features) : SqlRule DeleteStatement := do
  let start ← start
  let _ ← expectKeyword .DELETE
  let _ ← expectKeyword .FROM
  let table ← objectName
  let alias? ← alias? f
  let condition ← whereClause?
  let returning ← returningClause f
  return ⟨table, alias?, condition, returning, ← spanFrom start⟩

/-- A reserved word as the value of a pragma; it is kept as the name of a column. -/
def keywordValue : SqlRule Expr := do
  if (← peek).isKeyword then
    let token ← bump
    return ⟨.column none ⟨token.text, false, token.span⟩, token.span⟩
  else failAny ["pragma value"]

def pragmaValue : SqlRule Expr := choice [operand, keywordValue]

/-- A value stands behind an equals sign or between parentheses, or is left out. -/
def pragmaStatement : SqlRule PragmaStatement := do
  let start ← start
  let _ ← expectKeyword .PRAGMA
  let name ← objectName
  if ← eat .eq then
    let value ← pragmaValue
    return ⟨name, some value, ← spanFrom start⟩
  else if ← eat .leftParen then
    let value ← pragmaValue
    let _ ← expect .rightParen
    return ⟨name, some value, ← spanFrom start⟩
  else return ⟨name, none, ← spanFrom start⟩

def selectAsStatement : SqlRule Statement := do return .select (← selectStatement)

def insertAsStatement (f : Features) : SqlRule Statement := do
  return .insert (← insertStatement f)

def updateAsStatement (f : Features) : SqlRule Statement := do
  return .update (← updateStatement f)

def deleteAsStatement (f : Features) : SqlRule Statement := do
  return .delete (← deleteStatement f)

def createTableAsStatement (f : Features) : SqlRule Statement := do
  return .createTable (← createTableStatement f)

def pragmaAsStatement : SqlRule Statement := do return .pragma (← pragmaStatement)

/-- A statement that every dialect has. -/
def standardStatement (f : Features) : SqlRule Statement :=
  choice [selectAsStatement, insertAsStatement f, updateAsStatement f, deleteAsStatement f,
    createTableAsStatement f]

/-- A statement of the dialect at hand. -/
def statement (f : Features) : SqlRule Statement :=
  if f.pragma then choice [standardStatement f, pragmaAsStatement] else standardStatement f

/-- Consumes semicolons as long as there are any. -/
def semicolons : SqlRule Unit := do
  let step (_ : Unit) : SqlRule (Option Unit) := do
    if ← eat .semicolon then return some () else return none
  loop step ()

/-- Statements with semicolons between, before and behind them, as many as one likes. -/
def script (f : Features) : SqlRule Script := do
  let start ← start
  let step (statements : List Statement) : SqlRule (Option (List Statement)) := do
    semicolons
    if ← check .eof then return none
    else
      let next ← attempt (statement f)
      if ← check .eof then return some (next :: statements)
      else
        let _ ← expect .semicolon
        return some (next :: statements)
  let statements ← loop step []
  return ⟨statements.reverse, ← spanFrom start⟩

end SqlTree.SqlRule
