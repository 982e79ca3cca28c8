import SqlTree.Keyword

namespace SqlTree

/-- How the words, names, strings and comments of a dialect are written. -/
structure LexicalRules where
  keywords : KeywordTable
  /-- Opening and closing characters around a name; a doubled closing one stands for itself. -/
  identifierQuotes : List (Char × Char)
  /-- Characters around a string; a doubled one stands for itself. -/
  stringQuotes : List Char
  /-- Whether a backslash in a string starts an escape. -/
  backslashEscapes : Bool
  /-- Whether a hash sign starts a comment that ends with the line. -/
  hashComments : Bool
  deriving DecidableEq

namespace LexicalRules

/-- Names in double quotes and strings in single quotes. -/
def standard (keywords : KeywordTable) : LexicalRules :=
  ⟨keywords, [('"', '"')], ['\''], false, false⟩

/-- The closing character for a name that opens with `c`; the first pair wins. -/
def closingQuote? (rules : LexicalRules) (c : Char) : Option Char :=
  rules.identifierQuotes.lookup c

def isStringQuote (rules : LexicalRules) (c : Char) : Bool :=
  rules.stringQuotes.contains c

/-- Writes a name between the first pair of quotes, doubling its closing quotes. -/
def quoteIdentifier (rules : LexicalRules) (name : String) : String :=
  let (opening, closing) := rules.identifierQuotes.head?.getD ('"', '"')
  let body := name.toList.flatMap fun c => if c = closing then [c, c] else [c]
  String.ofList (opening :: body ++ [closing])

end LexicalRules

end SqlTree
