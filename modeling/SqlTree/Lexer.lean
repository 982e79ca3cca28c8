import SqlTree.LexError
import SqlTree.LexicalRules
import SqlTree.Text.Characters
import SqlTree.Text.Letters
import SqlTree.Text.Reader
import SqlTree.Token

namespace SqlTree

/-- A scanner's answer with the characters it read and those it left. A scanner never looks at positions; a
token gets its span from the characters read before and in it. -/
structure Scan (α : Type) where
  value : α
  text : List Char
  rest : List Char

namespace Scan

/-- The same scan after `text` has been read in front of it. -/
def behind {α β : Type} (text : List Char) (f : α → β) (s : Scan α) : Scan β :=
  ⟨f s.value, text ++ s.text, s.rest⟩

end Scan

/-- Where a reader of layout stands: between comments, in one that ends with the line, or in one
that needs its own end, with the number of characters read of it. -/
inductive LayoutState where
  | gap
  | line
  | block (read : Nat)

/-- Reads white space and comments. The answer counts the characters of a comment that the end
of the text cuts off. -/
def scanLayout (hash : Bool) : LayoutState → List Char → Scan Nat
  | .gap, [] => ⟨0, [], []⟩
  | .gap, '-' :: '-' :: cs => (scanLayout hash .line cs).behind ['-', '-'] id
  | .gap, '/' :: '*' :: cs => (scanLayout hash (.block 2) cs).behind ['/', '*'] id
  | .gap, c :: cs =>
    if isWhiteSpace c then (scanLayout hash .gap cs).behind [c] id
    else if hash && c == '#' then (scanLayout hash .line cs).behind [c] id
    else ⟨0, [], c :: cs⟩
  | .line, [] => ⟨0, [], []⟩
  | .line, c :: cs =>
    (scanLayout hash (if c = '\n' then .gap else .line) cs).behind [c] id
  | .block read, [] => ⟨read, [], []⟩
  | .block _, '*' :: '/' :: cs => (scanLayout hash .gap cs).behind ['*', '/'] id
  | .block read, c :: cs => (scanLayout hash (.block (read + 1)) cs).behind [c] id

/-- Why a token cannot be read, and how many of its characters stand before the fault. -/
structure LexFault where
  kind : LexErrorKind
  before : Nat

/-- What a scanner makes of the characters it read. -/
abbrev Lexeme := Except LexFault TokenKind

/-- Reads the name up to its closing quote, behind the opening one. Nothing is returned for a
name that the text does not close. -/
def scanQuotedName (closing : Char) : List Char → Scan (Option (List Char))
  | [] => ⟨none, [], []⟩
  | [c] => if c = closing then ⟨some [], [c], []⟩ else ⟨none, [c], []⟩
  | c :: d :: cs =>
    if c = closing then
      if d = closing then (scanQuotedName closing cs).behind [c, d] (·.map (closing :: ·))
      else ⟨some [], [c], d :: cs⟩
    else (scanQuotedName closing (d :: cs)).behind [c] (·.map (c :: ·))

def scanQuotedIdentifier (opening closing : Char) (cs : List Char) : Scan Lexeme :=
  (scanQuotedName closing cs).behind [opening] fun
    | some name => .ok (.identifier (String.ofList name))
    | none => .error ⟨.unterminatedQuotedIdentifier, 0⟩

/-- What a backslash and the character behind it stand for. The escapes of a pattern's wild
cards are kept as they are written. -/
def unescape? : Char → Option (List Char)
  | 'n' => some ['\n']
  | 't' => some ['\t']
  | 'r' => some ['\r']
  | '0' => some ['\x00']
  | 'b' => some ['\x08']
  | 'Z' => some ['\x1a']
  | '\\' => some ['\\']
  | '\'' => some ['\'']
  | '"' => some ['"']
  | '%' => some ['\\', '%']
  | '_' => some ['\\', '_']
  | _ => none

/-- Why the body of a string cannot be read. -/
inductive StringFault where
  | unterminated
  /-- A backslash, with `before` characters in front of it, that escapes nothing. -/
  | invalidEscape (c : Char) (before : Nat)

/-- The answer for a body of a string with `count` more characters, worth `value`, in front. -/
def consString (value : List Char) (count : Nat) :
    Except StringFault (List Char) → Except StringFault (List Char)
  | .ok body => .ok (value ++ body)
  | .error .unterminated => .error .unterminated
  | .error (.invalidEscape c before) => .error (.invalidEscape c (before + count))

/-- Reads the body of a string with its closing quote, behind the opening one. -/
def scanStringBody (escapes : Bool) (quote : Char) :
    List Char → Scan (Except StringFault (List Char))
  | [] => ⟨.error .unterminated, [], []⟩
  | [c] => if c = quote then ⟨.ok [], [c], []⟩ else ⟨.error .unterminated, [c], []⟩
  | c :: d :: cs =>
    if c = quote then
      if d = quote then (scanStringBody escapes quote cs).behind [c, d] (consString [quote] 2)
      else ⟨.ok [], [c], d :: cs⟩
    else if escapes && c == '\\' then
      match unescape? d with
      | some value => (scanStringBody escapes quote cs).behind [c, d] (consString value 2)
      | none => ⟨.error (.invalidEscape d 0), [c, d], cs⟩
    else (scanStringBody escapes quote (d :: cs)).behind [c] (consString [c] 1)

def scanString (escapes : Bool) (quote : Char) (cs : List Char) : Scan Lexeme :=
  (scanStringBody escapes quote cs).behind [quote] fun
    | .ok value => .ok (.string (String.ofList value))
    | .error .unterminated => .error ⟨.unterminatedString, 0⟩
    | .error (.invalidEscape c before) => .error ⟨.invalidEscape c, before + 1⟩

/-- The value of a hexadecimal digit. -/
def hexValue? (c : Char) : Option Nat :=
  if c.isDigit then some (c.toNat - '0'.toNat)
  else if 'a' ≤ c ∧ c ≤ 'f' then some (c.toNat - 'a'.toNat + 10)
  else if 'A' ≤ c ∧ c ≤ 'F' then some (c.toNat - 'A'.toNat + 10)
  else none

/-- Reads hexadecimal digits, among them white space, up to a closing quote. -/
def scanHexDigits : List Char → Scan (Except LexErrorKind (List Nat))
  | [] => ⟨.error .unterminatedBlob, [], []⟩
  | c :: cs =>
    if c = '\'' then ⟨.ok [], [c], cs⟩
    else match hexValue? c with
      | some digit => (scanHexDigits cs).behind [c] (·.map (digit :: ·))
      | none =>
        if isWhiteSpace c then (scanHexDigits cs).behind [c] id
        else ⟨.error (.invalidBlob .notHex), [c], cs⟩

/-- Bytes of two digits each, if no digit is left over. -/
def bytesOfDigits? : List Nat → Option (List UInt8)
  | [] => some []
  | [_] => none
  | high :: low :: digits => (bytesOfDigits? digits).map ((16 * high + low).toUInt8 :: ·)

/-- Reads a blob behind its letter and its opening quote, which are `opening`. -/
def scanBlob (opening cs : List Char) : Scan Lexeme :=
  (scanHexDigits cs).behind opening fun
    | .error kind => .error ⟨kind, 0⟩
    | .ok digits =>
      match bytesOfDigits? digits with
      | some bytes => .ok (.blob bytes)
      | none => .error ⟨.invalidBlob .oddDigits, 0⟩

/-- The value of a row of decimal digits. -/
def decimalValue (digits : List Char) : Nat :=
  digits.foldl (fun n c => 10 * n + (c.toNat - '0'.toNat)) 0

/-- The largest value of an integer literal. -/
def maxInteger : Nat := 0x7FFFFFFFFFFFFFFF

/-- The parts of a number as it is written: digits, a point with more digits, and the letter and
sign of an exponent with its digits. -/
structure NumberText where
  whole : List Char
  fraction : List Char
  mark : List Char
  exponent : List Char
  rest : List Char

namespace NumberText

/-- Splits off a point with at least one digit behind it. -/
def scanFraction : List Char → List Char × List Char
  | '.' :: d :: cs =>
    if d.isDigit then ('.' :: (d :: cs).takeWhile Char.isDigit, (d :: cs).dropWhile Char.isDigit)
    else ([], '.' :: d :: cs)
  | cs => ([], cs)

/-- Splits off the letter of an exponent with its sign. -/
def scanMark : List Char → List Char × List Char
  | [] => ([], [])
  | e :: cs =>
    if e = 'e' ∨ e = 'E' then
      match cs with
      | [] => ([e], [])
      | s :: cs => if s = '+' ∨ s = '-' then ([e, s], cs) else ([e], s :: cs)
    else ([], e :: cs)

def scan (cs : List Char) : NumberText :=
  let whole := cs.takeWhile Char.isDigit
  let (fraction, afterFraction) := scanFraction (cs.dropWhile Char.isDigit)
  let (mark, afterMark) := scanMark afterFraction
  if mark = [] then ⟨whole, fraction, [], [], afterMark⟩
  else ⟨whole, fraction, mark, afterMark.takeWhile Char.isDigit, afterMark.dropWhile Char.isDigit⟩

def text (n : NumberText) : List Char := n.whole ++ n.fraction ++ n.mark ++ n.exponent

/-- The number that the digits before and behind the point and the exponent stand for. -/
def floatValue (n : NumberText) : Binary64 :=
  let exponent := decimalValue n.exponent
  let exponent : Int := if n.mark.contains '-' then -exponent else exponent
  let places := n.fraction.length - 1
  .ofDecimal (decimalValue (n.whole ++ n.fraction.drop 1)) (exponent - places)

/-- A number without point and exponent is an integer, which has to fit; an exponent needs a
digit. -/
def value (n : NumberText) : Lexeme :=
  let invalid : Lexeme := .error ⟨.invalidNumber (String.ofList n.text), 0⟩
  if n.mark ≠ [] ∧ n.exponent = [] then invalid
  else if n.fraction = [] ∧ n.mark = [] then
    let value := decimalValue n.whole
    if value ≤ maxInteger then .ok (.integer value) else invalid
  else .ok (.float n.floatValue)

end NumberText

def scanNumber (cs : List Char) : Scan Lexeme :=
  let number := NumberText.scan cs
  ⟨number.value, number.text, number.rest⟩

/-- A character of a word behind the first. -/
def isWordChar (c : Char) : Bool := isAlphanumeric c || c == '_' || c == '$'

/-- Reads a word: a keyword if the table reserves it, else a name. -/
def scanWord (keywords : KeywordTable) (cs : List Char) : Scan Lexeme :=
  let text := cs.takeWhile isWordChar
  let word := String.ofList text
  let kind :=
    match keywords.classify? word with
    | some k => TokenKind.keyword k
    | none => .identifier word
  ⟨.ok kind, text, cs.dropWhile isWordChar⟩

/-- An operator or punctuation mark at the start of a text, with its length. The longest one
counts. -/
def symbol? : List Char → Option (TokenKind × Nat)
  | ':' :: ':' :: _ => some (.doubleColon, 2)
  | '|' :: '|' :: _ => some (.concat, 2)
  | '<' :: '=' :: _ => some (.ltEq, 2)
  | '<' :: '>' :: _ => some (.notEq, 2)
  | '<' :: '<' :: _ => some (.leftShift, 2)
  | '>' :: '=' :: _ => some (.gtEq, 2)
  | '>' :: '>' :: _ => some (.rightShift, 2)
  | '!' :: '=' :: _ => some (.notEq, 2)
  | '(' :: _ => some (.leftParen, 1)
  | ')' :: _ => some (.rightParen, 1)
  | '[' :: _ => some (.leftBracket, 1)
  | ']' :: _ => some (.rightBracket, 1)
  | ',' :: _ => some (.comma, 1)
  | ';' :: _ => some (.semicolon, 1)
  | '+' :: _ => some (.plus, 1)
  | '-' :: _ => some (.minus, 1)
  | '*' :: _ => some (.star, 1)
  | '/' :: _ => some (.slash, 1)
  | '%' :: _ => some (.percent, 1)
  | '~' :: _ => some (.bitNot, 1)
  | '?' :: _ => some (.question, 1)
  | '@' :: _ => some (.atSign, 1)
  | '.' :: _ => some (.dot, 1)
  | '=' :: _ => some (.eq, 1)
  | '&' :: _ => some (.bitAnd, 1)
  | ':' :: _ => some (.colon, 1)
  | '|' :: _ => some (.bitOr, 1)
  | '<' :: _ => some (.lt, 1)
  | '>' :: _ => some (.gt, 1)
  | _ => none

/-- Reads one token where layout has been read already. Quotes come first: a dialect may use any
character as a quote. -/
def scanToken (rules : LexicalRules) : List Char → Scan Lexeme
  | [] => ⟨.ok .eof, [], []⟩
  | c :: cs =>
    match rules.closingQuote? c with
    | some closing => scanQuotedIdentifier c closing cs
    | none =>
      if rules.isStringQuote c then scanString rules.backslashEscapes c cs
      else
        match symbol? (c :: cs) with
        | some (kind, size) => ⟨.ok kind, (c :: cs).take size, (c :: cs).drop size⟩
        | none =>
          if (c = 'X' ∨ c = 'x') ∧ cs.head? = some '\'' then scanBlob [c, '\''] (cs.drop 1)
          else if c.isDigit then scanNumber (c :: cs)
          else if isAlphabetic c || c == '_' then scanWord rules.keywords (c :: cs)
          else ⟨.error ⟨.unexpectedCharacter c, 0⟩, [], c :: cs⟩

/-- The next token or lexical error behind a place, and the place where reading stopped. -/
def nextToken (rules : LexicalRules) (c : Cursor) : Except LexError Token × Cursor :=
  let layout := scanLayout rules.hashComments .gap c.rest
  let start := c.position.afterAll layout.text
  if layout.value = 0 then
    let token := scanToken rules layout.rest
    let stop := start.afterAll token.text
    let result :=
      match token.value with
      | .ok kind => .ok ⟨kind, String.ofList token.text, ⟨start, stop⟩⟩
      | .error fault => .error ⟨fault.kind, start.afterAll (token.text.take fault.before)⟩
    (result, ⟨stop, token.rest⟩)
  else
    let opening := c.position.afterAll (layout.text.take (layout.text.length - layout.value))
    (.error ⟨.unterminatedComment, opening⟩, ⟨start, layout.rest⟩)

/-- All tokens behind a place, the end of the text as the last one, or the first lexical error,
and the place where reading stopped. Every token but the last one takes a character, so `fuel`
beyond the number of characters is never used up. -/
def tokensFrom (rules : LexicalRules) : Nat → Cursor → Except LexError (List Token) × Cursor
  | 0, c => (.ok [], c)
  | fuel + 1, c =>
    match nextToken rules c with
    | (.error e, c) => (.error e, c)
    | (.ok token, c) =>
      if token.isEof then (.ok [token], c)
      else
        let (tokens, c) := tokensFrom rules fuel c
        (tokens.map (token :: ·), c)

/-- All tokens behind a place, the end of the text as the last one, or the first lexical error,
and the place where reading stopped. -/
def remainingTokens (rules : LexicalRules) (c : Cursor) : Except LexError (List Token) × Cursor :=
  tokensFrom rules (c.rest.length + 1) c

/-- All tokens of a text. -/
def tokenize (rules : LexicalRules) (text : String) : Except LexError (List Token) :=
  (remainingTokens rules (.ofText text.toList)).1

end SqlTree
