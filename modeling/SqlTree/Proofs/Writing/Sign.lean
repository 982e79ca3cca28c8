import SqlTree.Lexer
import SqlTree.Model.DataType
import SqlTree.Model.Name
import SqlTree.Model.Operator

namespace SqlTree

namespace LexicalRules

/-- Writes a string between single quotes, doubling those in it, and the backslashes as well where
they start escapes. -/
def quoteString (rules : LexicalRules) (value : String) : String :=
  let body := value.toList.flatMap fun c =>
    if c = '\'' ∨ rules.backslashEscapes = true ∧ c = '\\' then [c, c] else [c]
  String.ofList ('\'' :: body ++ ['\''])

end LexicalRules

/-- Writes a blob, with two digits for each byte. -/
def quoteBlob (bytes : List UInt8) : String :=
  let digits := bytes.flatMap fun b => [(b.toNat / 16).digitChar, (b.toNat % 16).digitChar]
  String.ofList ('X' :: '\'' :: digits ++ ['\''])

/-- A name that is to be written. -/
structure Label where
  value : String
  quoted : Bool

/-- Whether a word can be read without quotes. -/
def isBareWord (word : String) : Bool :=
  match word.toList with
  | [] => false
  | c :: cs => (isAlphabetic c || c == '_') && cs.all isWordChar

namespace Label

def ident (l : Label) : Ident := ⟨l.value, l.quoted, .nothing⟩

/-- A name stands between quotes, or it is a word that the rules do not reserve. -/
def Legible (rules : LexicalRules) (l : Label) : Prop :=
  l.quoted = true ∨ isBareWord l.value = true ∧ rules.keywords.classify? l.value = none

end Label

/-- A token that is to be written: its text, what it is then, and its number if it is a positional
placeholder. -/
structure Sign where
  text : String
  kind : TokenKind
  number : Option Nat

namespace Sign

/-- A word without quotes: a keyword where it is reserved, else a name. -/
def bare (rules : LexicalRules) (word : String) : Sign :=
  let kind :=
    match rules.keywords.classify? word with
    | some k => TokenKind.keyword k
    | none => .identifier word
  ⟨word, kind, none⟩

def word (rules : LexicalRules) (k : Keyword) : Sign := bare rules k.spelling

def name (rules : LexicalRules) (l : Label) : Sign :=
  if l.quoted then ⟨rules.quoteIdentifier l.value, .identifier l.value, none⟩
  else bare rules l.value

def integer (value : Nat) : Sign := ⟨value.repr, .integer value, none⟩

def string (rules : LexicalRules) (value : String) : Sign :=
  ⟨rules.quoteString value, .string value, none⟩

def blob (bytes : List UInt8) : Sign := ⟨quoteBlob bytes, .blob bytes, none⟩

def hole (number : Nat) : Sign := ⟨"?", .question, some number⟩

def leftParen : Sign := ⟨"(", .leftParen, none⟩

def rightParen : Sign := ⟨")", .rightParen, none⟩

def comma : Sign := ⟨",", .comma, none⟩

def dot : Sign := ⟨".", .dot, none⟩

def colon : Sign := ⟨":", .colon, none⟩

/-- The sign of an operator in front of an operand. -/
def unary (rules : LexicalRules) : UnaryOp → Sign
  | .neg => ⟨"-", .minus, none⟩
  | .bitNot => ⟨"~", .bitNot, none⟩
  | .not => word rules .NOT

/-- The sign of an operator between two operands. -/
def binary (rules : LexicalRules) : BinaryOp → Sign
  | .add => ⟨"+", .plus, none⟩
  | .sub => ⟨"-", .minus, none⟩
  | .mul => ⟨"*", .star, none⟩
  | .div => ⟨"/", .slash, none⟩
  | .mod => ⟨"%", .percent, none⟩
  | .eq => ⟨"=", .eq, none⟩
  | .notEq => ⟨"<>", .notEq, none⟩
  | .lt => ⟨"<", .lt, none⟩
  | .ltEq => ⟨"<=", .ltEq, none⟩
  | .gt => ⟨">", .gt, none⟩
  | .gtEq => ⟨">=", .gtEq, none⟩
  | .and => word rules .AND
  | .or => word rules .OR
  | .concat => ⟨"||", .concat, none⟩
  | .bitAnd => ⟨"&", .bitAnd, none⟩
  | .bitOr => ⟨"|", .bitOr, none⟩
  | .leftShift => ⟨"<<", .leftShift, none⟩
  | .rightShift => ⟨">>", .rightShift, none⟩

/-- Whether a sign spells a word, as a token with its text and kind does. -/
def spells (s : Sign) (k : Keyword) : Bool := Token.spells ⟨s.kind, s.text, .nothing⟩ k

/-- Numbers between parentheses, if there are any. -/
def arguments : List Nat → List Sign
  | [] => []
  | n :: ns => leftParen :: integer n :: ns.flatMap (fun n => [comma, integer n]) ++ [rightParen]

end Sign

namespace DataType

/-- The name of a type and the numbers behind it. -/
def parts : DataType → String × List Nat
  | smallint => ("SMALLINT", [])
  | integer => ("INTEGER", [])
  | bigint => ("BIGINT", [])
  | real => ("REAL", [])
  | double => ("DOUBLE", [])
  | decimal precision scale => ("DECIMAL", precision.toList ++ scale.toList)
  | numeric precision scale => ("NUMERIC", precision.toList ++ scale.toList)
  | char length => ("CHAR", length.toList)
  | varchar length => ("VARCHAR", length.toList)
  | text => ("TEXT", [])
  | blob => ("BLOB", [])
  | binary length => ("BINARY", length.toList)
  | varbinary length => ("VARBINARY", length.toList)
  | date => ("DATE", [])
  | time => ("TIME", [])
  | timestamp => ("TIMESTAMP", [])
  | datetime => ("DATETIME", [])
  | boolean => ("BOOLEAN", [])
  | custom written => (written, [])

def signs (rules : LexicalRules) (type : DataType) : List Sign :=
  .bare rules type.parts.1 :: Sign.arguments type.parts.2

/-- A type that all dialects share, with a length or a precision that is in range, and with a scale
only behind a precision. -/
def Legible : DataType → Prop
  | decimal precision scale | numeric precision scale =>
    (∀ n ∈ precision, n ≤ 0xFFFF) ∧ (∀ n ∈ scale, n ≤ 0xFFFF) ∧
      (scale.isSome = true → precision.isSome = true)
  | char length | varchar length | binary length | varbinary length =>
    ∀ n ∈ length, n ≤ 0xFFFFFFFF
  | custom _ => False
  | _ => True

end DataType

/-- Characters in which a token may end: none are left, or white space follows. -/
def EndsToken (rest : List Char) : Prop := ∀ c ∈ rest.head?, isWhiteSpace c = true

/-- A text that writes signs one behind the other, with white space between them, and perhaps in
front of them and behind them. -/
inductive Spaced : List Sign → List Char → Prop
  | blank {gap} : (∀ c ∈ gap, isWhiteSpace c = true) → Spaced [] gap
  | sign {s signs gap rest} : (∀ c ∈ gap, isWhiteSpace c = true) → EndsToken rest →
      Spaced signs rest → Spaced (s :: signs) (gap ++ (s.text.toList ++ rest))

/-- The placeholders among signs are numbered one behind the other. -/
def Numbered (first : Nat) (signs : List Sign) : Prop :=
  signs.filterMap (·.number) = List.range' first (signs.filterMap (·.number)).length

end SqlTree
