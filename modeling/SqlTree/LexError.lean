import SqlTree.Text.Position

namespace SqlTree

inductive BlobFault where
  | notHex
  | oddDigits
  deriving DecidableEq

namespace BlobFault

def message : BlobFault → String
  | notHex => "non-hex character"
  | oddDigits => "odd number of hex digits"

end BlobFault

/-- Why a text is no sequence of tokens. -/
inductive LexErrorKind where
  | unterminatedString
  | unterminatedQuotedIdentifier
  | unterminatedComment
  | unterminatedBlob
  | invalidBlob (fault : BlobFault)
  | invalidEscape (c : Char)
  | invalidNumber (text : String)
  | unexpectedCharacter (c : Char)
  deriving DecidableEq

namespace LexErrorKind

def name : LexErrorKind → String
  | unterminatedString => "UnterminatedString"
  | unterminatedQuotedIdentifier => "UnterminatedQuotedIdentifier"
  | unterminatedComment => "UnterminatedComment"
  | unterminatedBlob => "UnterminatedBlob"
  | invalidBlob _ => "InvalidBlob"
  | invalidEscape _ => "InvalidEscape"
  | invalidNumber _ => "InvalidNumber"
  | unexpectedCharacter _ => "UnexpectedCharacter"

def message : LexErrorKind → String
  | unterminatedString => "unterminated string literal"
  | unterminatedQuotedIdentifier => "unterminated quoted identifier"
  | unterminatedComment => "unterminated block comment"
  | unterminatedBlob => "unterminated blob literal"
  | invalidBlob fault => s!"invalid blob literal: {fault.message}"
  | invalidEscape c => s!"invalid escape sequence '\\{c}'"
  | invalidNumber text => s!"invalid number '{text}'"
  | unexpectedCharacter c => s!"unexpected character '{c}'"

end LexErrorKind

/-- A lexical error and the place it is reported at. -/
structure LexError where
  kind : LexErrorKind
  position : Position
  deriving DecidableEq

namespace LexError

def describe (e : LexError) : String :=
  s!"{e.kind.message} at {e.position.describe}"

end LexError

end SqlTree
