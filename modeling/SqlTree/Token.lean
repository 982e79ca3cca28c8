import SqlTree.Keyword
import SqlTree.Number.Binary64
import SqlTree.Text.Position

namespace SqlTree

/-- What a token is, with the value of a literal or a name. -/
inductive TokenKind where
  | integer (value : Nat)
  | float (value : Binary64)
  | string (value : String)
  | blob (bytes : List UInt8)
  | identifier (name : String)
  | keyword (k : Keyword)
  | plus | minus | star | slash | percent
  | eq | notEq | lt | ltEq | gt | gtEq
  | concat | bitAnd | bitOr | bitNot | leftShift | rightShift
  | leftParen | rightParen | leftBracket | rightBracket
  | comma | semicolon | dot | colon | doubleColon | question | atSign
  | eof
  deriving DecidableEq

/-- Kinds of tokens as a reader of a listing tells them apart. -/
inductive TokenCategory where
  | identifier | keyword | literal | operator | punctuation | endOfInput
  deriving DecidableEq

namespace TokenCategory

def name : TokenCategory → String
  | identifier => "Identifier"
  | keyword => "Keyword"
  | literal => "Literal"
  | operator => "Operator"
  | punctuation => "Punctuation"
  | endOfInput => "EndOfInput"

end TokenCategory

namespace TokenKind

def category : TokenKind → TokenCategory
  | integer _ | float _ | string _ | blob _ => .literal
  | identifier _ => .identifier
  | keyword _ => .keyword
  | plus | minus | star | slash | percent | eq | notEq | lt | ltEq | gt | gtEq
  | concat | bitAnd | bitOr | bitNot | leftShift | rightShift | doubleColon => .operator
  | leftParen | rightParen | leftBracket | rightBracket | comma | semicolon | dot | colon
  | question | atSign => .punctuation
  | eof => .endOfInput

/-- The kind without its value. -/
def name : TokenKind → String
  | integer _ => "Integer"
  | float _ => "Float"
  | string _ => "String"
  | blob _ => "Blob"
  | identifier _ => "Identifier"
  | keyword _ => "Keyword"
  | plus => "Plus"
  | minus => "Minus"
  | star => "Star"
  | slash => "Slash"
  | percent => "Percent"
  | eq => "Eq"
  | notEq => "NotEq"
  | lt => "Lt"
  | ltEq => "LtEq"
  | gt => "Gt"
  | gtEq => "GtEq"
  | concat => "Concat"
  | bitAnd => "BitAnd"
  | bitOr => "BitOr"
  | bitNot => "BitNot"
  | leftShift => "LeftShift"
  | rightShift => "RightShift"
  | leftParen => "LeftParen"
  | rightParen => "RightParen"
  | leftBracket => "LeftBracket"
  | rightBracket => "RightBracket"
  | comma => "Comma"
  | semicolon => "Semicolon"
  | dot => "Dot"
  | colon => "Colon"
  | doubleColon => "DoubleColon"
  | question => "Question"
  | atSign => "At"
  | eof => "Eof"

/-- How a kind of token is named where it was expected. -/
def describe : TokenKind → String
  | integer _ => "integer"
  | float _ => "number"
  | string _ => "string"
  | blob _ => "blob"
  | identifier _ => "identifier"
  | keyword k => k.spelling
  | plus => "'+'"
  | minus => "'-'"
  | star => "'*'"
  | slash => "'/'"
  | percent => "'%'"
  | eq => "'='"
  | notEq => "'<>'"
  | lt => "'<'"
  | ltEq => "'<='"
  | gt => "'>'"
  | gtEq => "'>='"
  | concat => "'||'"
  | bitAnd => "'&'"
  | bitOr => "'|'"
  | bitNot => "'~'"
  | leftShift => "'<<'"
  | rightShift => "'>>'"
  | leftParen => "'('"
  | rightParen => "')'"
  | leftBracket => "'['"
  | rightBracket => "']'"
  | comma => "','"
  | semicolon => "';'"
  | dot => "'.'"
  | colon => "':'"
  | doubleColon => "'::'"
  | question => "'?'"
  | atSign => "'@'"
  | eof => "end of input"

/-- Whether two kinds agree up to the value they carry. -/
def sameKind (a b : TokenKind) : Bool := a.ctorIdx == b.ctorIdx

end TokenKind

/-- A token: what it is, how it is written and where it stands. -/
structure Token where
  kind : TokenKind
  text : String
  span : Span
  deriving DecidableEq

namespace Token

def isEof (t : Token) : Bool := t.kind == .eof

def keyword? (t : Token) : Option Keyword :=
  match t.kind with
  | .keyword k => some k
  | _ => none

def isKeyword (t : Token) : Bool := t.keyword?.isSome

/-- How a token is named where it was found. -/
def describe (t : Token) : String :=
  if t.isEof then t.kind.describe else s!"'{t.text}'"

/-- Whether an unquoted word is spelled as `k`, reserved or not. -/
def spells (t : Token) (k : Keyword) : Bool :=
  match t.kind with
  | .keyword other => other == k
  | .identifier _ => sameWord t.text k.spelling
  | _ => false

/-- Whether a name is written between quotes: only then do text and value differ. -/
def isQuoted (t : Token) : Bool :=
  match t.kind with
  | .identifier name => t.text != name
  | _ => false

end Token

end SqlTree
