import SqlTree.Grammar.Precedence
import SqlTree.Grammar.TypeName

namespace SqlTree.SqlRule

open Rule

/-- The predicate that follows an operand, or NOT behind an operand; it stays. -/
def predicate? (f : Features) (negated : Bool) : SqlRule (Option InfixOp) := do
  if ← (if negated then return false else checkKeyword .IS) then return some .isNull
  else if ← checkKeyword .IN then return some (.inList negated)
  else if ← checkKeyword .BETWEEN then return some (.between negated)
  else if ← checkKeyword .LIKE then return some (.like false negated)
  else if ← (if f.ilike then checkKeyword .ILIKE else return false) then
    return some (.like true negated)
  else return none

/-- The operator that follows an operand; it stays. NOT goes on with an expression only in front
of a predicate. -/
def infixOp? (f : Features) : SqlRule (Option InfixOp) := do
  let kind := (← peek).kind
  match kind.binaryOp? with
  | some op => return some (.binary op)
  | none =>
    if kind = .doubleColon then return if f.postfixCast then some .cast else none
    else if ← checkKeyword .NOT then
      lookahead do
        let _ ← bump
        predicate? f true
    else predicate? f false

/-- Consumes NOT where it was announced. -/
def negation (negated : Bool) : SqlRule Unit := do
  if negated then
    let _ ← expectKeyword .NOT

/-- What follows `left` from its operator on. -/
def infixed (op : InfixOp) (left : Expr) : SqlRule ExprKind := do
  match op with
  | .binary operator =>
    let _ ← bump
    return .binary left operator (← call (.expression op.rightPower))
  | .isNull =>
    let _ ← expectKeyword .IS
    let negated ← eatKeyword .NOT
    let _ ← expectKeyword .NULL
    return .isNull left negated
  | .inList negated =>
    negation negated
    let _ ← expectKeyword .IN
    let _ ← expect .leftParen
    let list ← (do
      if ← checkKeyword .SELECT then return InList.subquery (← selectStatement)
      else return .values (← commaSeparated expression))
    let _ ← expect .rightParen
    return .inList left list negated
  | .between negated =>
    negation negated
    let _ ← expectKeyword .BETWEEN
    let low ← call (.expression op.rightPower)
    let _ ← expectKeyword .AND
    let high ← call (.expression op.rightPower)
    return .between left low high negated
  | .like caseInsensitive negated =>
    negation negated
    let _ ← expectKeyword (if caseInsensitive then .ILIKE else .LIKE)
    let pattern ← call (.expression op.rightPower)
    return .like left pattern caseInsensitive negated
  | .cast =>
    let _ ← expect .doubleColon
    return .cast left (← dataType)

/-- The call of a function behind its name. A lone star between the parentheses is a wildcard. -/
def functionCall (name : Ident) (start : Position) : SqlRule Expr := do
  let _ ← expect .leftParen
  let distinct ← eatKeyword .DISTINCT
  let arguments ← (do
    if ← check .rightParen then return []
    else if ← check .star then
      let star ← Rule.start
      let _ ← bump
      return [⟨.wildcard none, ← spanFrom star⟩]
    else commaSeparated expression)
  let _ ← expect .rightParen
  return ⟨.call ⟨name, arguments, distinct⟩, ← spanFrom start⟩

/-- A column, all columns of a table, or the call of a function. -/
def nameExpression : SqlRule Expr := do
  let start ← start
  let name ← identifier
  if ← check .leftParen then functionCall name start
  else
    let kind ← (do
      if ← eat .dot then
        if ← eat .star then return ExprKind.wildcard (some name)
        else return .column (some name) (← identifier)
      else return .column none name)
    return ⟨kind, ← spanFrom start⟩

def castExpression : SqlRule Expr := do
  let start ← start
  let _ ← expectKeyword .CAST
  let _ ← expect .leftParen
  let expr ← expression
  let _ ← expectKeyword .AS
  let type ← dataType
  let _ ← expect .rightParen
  return ⟨.cast expr type, ← spanFrom start⟩

def existsExpression : SqlRule Expr := do
  let start ← start
  let _ ← expectKeyword .EXISTS
  let _ ← expect .leftParen
  let query ← selectStatement
  let _ ← expect .rightParen
  return ⟨.existsQuery query false, ← spanFrom start⟩

def whenClause : SqlRule WhenClause := do
  let start ← start
  let _ ← expectKeyword .WHEN
  let condition ← expression
  let _ ← expectKeyword .THEN
  let result ← expression
  return ⟨condition, result, ← spanFrom start⟩

def caseExpression : SqlRule Expr := do
  let start ← start
  let _ ← expectKeyword .CASE
  let operand ← (do
    if ← checkKeyword .WHEN then return none else return some (← expression))
  let whenClauses ← many whenClause
  if whenClauses.isEmpty then failAny [Keyword.WHEN.spelling]
  else
    let elseClause ← (do
      if ← eatKeyword .ELSE then return some (← expression) else return none)
    let _ ← expectKeyword .END
    return ⟨.caseWhen operand whenClauses elseClause, ← spanFrom start⟩

/-- A form that starts with a keyword. Where the keyword is not reserved it may just as well be
a name. -/
def keywordForm (reserved : Bool) (form : SqlRule Expr) : SqlRule Expr :=
  if reserved then form else choice [form, nameExpression]

/-- The functions whose names some dialects reserve. -/
def functionKeywords : List Keyword := [.COUNT, .SUM, .AVG, .MIN, .MAX, .LEFT, .RIGHT]

/-- A literal that is a word. -/
def literalWord? : SqlRule (Option Literal) := do
  if ← eatKeyword .NULL then return some .null
  else if ← eatKeyword .TRUE then return some (.boolean true)
  else if ← eatKeyword .FALSE then return some (.boolean false)
  else return none

/-- An expression that starts with a word, reserved or not, or with a quoted name. -/
def wordExpression (start : Position) : SqlRule Expr := do
  let reserved := (← peek).isKeyword
  if ← checkKeyword .CASE then keywordForm reserved caseExpression
  else if ← checkKeyword .CAST then keywordForm reserved castExpression
  else if ← checkKeyword .EXISTS then keywordForm reserved existsExpression
  else
    match ← literalWord? with
    | some value => return ⟨.literal value, ← spanFrom start⟩
    | none =>
      let token ← peek
      match token.keyword? with
      | some k =>
        if functionKeywords.contains k then
          let _ ← bump
          functionCall ⟨token.text, false, token.span⟩ start
        else failAny ["expression"]
      | none => nameExpression

/-- Consumes the next token for what it stands for by itself. -/
def single (start : Position) (kind : ExprKind) : SqlRule Expr := do
  let _ ← bump
  return ⟨kind, ← spanFrom start⟩

/-- An expression without operators around its parts, parentheses apart. -/
def primary : SqlRule Expr := do
  let start ← start
  match (← peek).kind with
  | .integer value => single start (.literal (.integer value))
  | .float value => single start (.literal (.float value))
  | .string value => single start (.literal (.string value))
  | .blob bytes => single start (.literal (.blob bytes))
  | .star => single start (.wildcard none)
  | .question =>
    let _ ← bump
    let position ← nextParam
    return ⟨.parameter none position, ← spanFrom start⟩
  | .colon =>
    let _ ← bump
    let name ← identifier
    return ⟨.parameter (some name.value) 0, ← spanFrom start⟩
  | .leftParen =>
    let _ ← bump
    let kind ← (do
      if ← checkKeyword .SELECT then return ExprKind.subquery (← selectStatement)
      else return .paren (← expression))
    let _ ← expect .rightParen
    return ⟨kind, ← spanFrom start⟩
  | .keyword _ | .identifier _ => wordExpression start
  | _ => failAny ["expression"]

/-- NOT in front of an operand. It turns an EXISTS around instead of standing over it. -/
def negated (operand : Expr) : ExprKind :=
  match operand.kind with
  | .existsQuery query negated => .existsQuery query !negated
  | _ => .unary .not operand

/-- An operand with the signs and negations in front of it. -/
def prefixed : SqlRule Expr := do
  let start ← start
  match (← peek).kind.signOp? with
  | some op =>
    let _ ← bump
    let operand ← call (.expression signPower)
    return ⟨.unary op operand, ← spanFrom start⟩
  | none =>
    if ← eatKeyword .NOT then
      let operand ← call (.expression notPower)
      return ⟨negated operand, ← spanFrom start⟩
    else primary

/-- An expression none of whose outer operators binds to the left more weakly than `power`. -/
def expressionBody (f : Features) (power : Nat) : SqlRule Expr := do
  let start ← start
  let first ← prefixed
  let step (left : Expr) : SqlRule (Option Expr) := do
    match ← infixOp? f with
    | some op =>
      if op.leftPower < power then return none
      else
        let kind ← infixed op left
        return some ⟨kind, ← spanFrom start⟩
    | none => return none
  loop step first

end SqlTree.SqlRule
