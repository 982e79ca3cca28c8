import SqlTree.Grammar.Symbol

namespace SqlTree.SqlRule

open Rule

/-- The keywords that a type may be named with. -/
def typeKeywords : List Keyword :=
  [.INT, .INTEGER, .SMALLINT, .BIGINT, .REAL, .DOUBLE, .FLOAT, .DECIMAL, .NUMERIC, .CHAR,
    .CHARACTER, .VARCHAR, .TEXT, .BLOB, .BOOLEAN, .DATE, .TIME, .TIMESTAMP, .DATETIME]

/-- Whether an unquoted word can belong to the name of a type. Words that have another meaning
cannot, reserved or not. -/
def isTypeWord (word : String) : Bool :=
  match Keyword.ofWord? word with
  | some k => typeKeywords.contains k
  | none => true

/-- The next word of the name of a type, which stays. Only the first word may be quoted. -/
def typeWord? (isFirst : Bool) : SqlRule (Option String) := do
  let token ← peek
  match token.kind with
  | .identifier name =>
    return if (if token.isQuoted then isFirst else isTypeWord name) then some name else none
  | .keyword k => return if typeKeywords.contains k then some token.text else none
  | _ => return none

/-- Consumes the next token if it is an unreserved and unquoted word. -/
def eatWord (word : String) : SqlRule Bool := do
  let token ← peek
  match token.kind with
  | .identifier _ =>
    if sameWord token.text word then
      let _ ← bump
      return true
    else return false
  | _ => return false

/-- A whole number up to `limit`. -/
def integerUpTo (limit : Nat) (what : String) : SqlRule Nat := do
  match (← peek).kind with
  | .integer value =>
    if value ≤ limit then
      let _ ← bump
      return value
    else failAny [what]
  | _ => failAny [what]

/-- A length between parentheses, or nothing. -/
def lengthArgument : SqlRule (Option Nat) := do
  if ← eat .leftParen then
    let length ← integerUpTo 0xFFFFFFFF "length"
    let _ ← expect .rightParen
    return some length
  else return none

/-- A precision between parentheses, perhaps with a scale, or nothing. -/
def scaleArguments : SqlRule (Option Nat × Option Nat) := do
  if ← eat .leftParen then
    let precision ← integerUpTo 0xFFFF "precision"
    let scale ← (do
      if ← eat .comma then return some (← integerUpTo 0xFFFF "scale") else return none)
    let _ ← expect .rightParen
    return (some precision, scale)
  else return (none, none)

/-- Consumes tokens through the parenthesis that closes the next one. -/
def balanced : SqlRule Unit := do
  let step (depth : Nat) : SqlRule (Option Nat) := do
    match (← peek).kind with
    | .leftParen =>
      let _ ← bump
      return some (depth + 1)
    | .rightParen =>
      let _ ← bump
      return if depth ≤ 1 then none else some (depth - 1)
    | .eof => failAny ["')'"]
    | _ =>
      let _ ← bump
      return if depth = 0 then none else some depth
  let _ ← loop step 0

/-- The rest of a type whose name no dialect shares: more words, and arguments as written. -/
def customType (first : String) : SqlRule DataType := do
  let step (name : String) : SqlRule (Option String) := do
    match ← typeWord? false with
    | some word =>
      let _ ← bump
      return some s!"{name} {word}"
    | none => return none
  let name ← loop step first
  if ← check .leftParen then
    let opening ← start
    balanced
    let arguments ← slice (← spanFrom opening)
    return .custom (name ++ arguments)
  else return .custom name

/-- The name of a type when its first word is `first`: some names have a second word. -/
def typeName (first : String) : SqlRule String := do
  if sameWord first "DOUBLE" then
    let _ ← eatKeyword .PRECISION
    return first
  else if sameWord first "CHARACTER" then
    return if ← eatWord "VARYING" then "VARCHAR" else first
  else return first

def dataType : SqlRule DataType := do
  match ← typeWord? true with
  | none => failAny ["data type"]
  | some first =>
    let _ ← bump
    let name ← typeName first
    match DataType.argumentsOf name with
    | .none => return .ofParts name none none none
    | .length => return .ofParts name (← lengthArgument) none none
    | .precisionScale =>
      let (precision, scale) ← scaleArguments
      return .ofParts name none precision scale
    | .verbatim => customType name

end SqlTree.SqlRule
